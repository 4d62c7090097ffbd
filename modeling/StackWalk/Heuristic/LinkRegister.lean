import StackWalk.Unwound

/-!
# The link register

Where calls leave the return address in a register, a function that has not
touched it or the stack pointer yet can be left through it.
-/

namespace StackWalk.Heuristic.LinkRegister

/-- The caller's frame, taking the function for one that has done nothing. -/
def step (target : Target) (frame : Frame) : Except UnwindError (Option Unwound) := do
  let arch := target.arch
  match arch.lr.filter fun lr => !(frame.locs.of lr).isLost with
  | none =>
      return none
  | some lr =>
      let cfa ← (frame.locs.of arch.sp).read target arch.sp
      return some {
        cfa := cfa
        locs := frame.locs.put arch.sp (.value cfa)
        ipColumn := lr
        method := .linkRegister
        exactIp := false
        raSigned := false }

end StackWalk.Heuristic.LinkRegister
