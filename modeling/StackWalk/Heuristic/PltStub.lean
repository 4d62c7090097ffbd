import StackWalk.Unwound

/-!
# Linkage stubs

A stub that jumps to a function of another object has no unwind information
and no frame: the return address is the word at the stack pointer.
-/

namespace StackWalk.Heuristic.PltStub

/-- Whether looking for a stub at `ip` counts past the last address. -/
def overflows (target : Target) (ip : UInt64) : Bool :=
  target.arch.pltEntry.any (target.matchOverflows ip)

def step (target : Target) (frame : Frame) : Except UnwindError (Option Unwound) := do
  let arch := target.arch
  match arch.pltEntry.filter fun pattern => target.codeMatches frame.ip pattern with
  | none =>
      return none
  | some _ =>
      let sp ← (frame.locs.of arch.sp).read target arch.sp
      let cfa := (sp + arch.wordSize) &&& arch.wordMask
      let locs := frame.locs.put arch.returnAddress (.memory sp false)
      return some {
        cfa := cfa
        locs := locs.put arch.sp (.value cfa)
        ipColumn := arch.returnAddress
        method := .plt
        exactIp := false
        raSigned := false }

end StackWalk.Heuristic.PltStub
