import StackWalk.Unwound

/-!
# Signal trampolines

A signal handler returns into a few instructions that ask the kernel to go on
with the interrupted code.  They are known by their bytes, and the interrupted
registers are in the context that the kernel left above the stack pointer.
-/

namespace StackWalk.Heuristic.SignalFrame

/-- The layout of the signal frame, when the code at `ip` is a trampoline. -/
def layoutAt (target : Target) (ip : UInt64) : Option SignalLayout :=
  target.arch.signalFrame.filter fun layout =>
    target.codeMatches ip (layout.trampoline.map some)

/-- Whether the code at `ip` is a trampoline. -/
def isTrampoline (target : Target) (ip : UInt64) : Bool :=
  (layoutAt target ip).isSome

/-- Whether looking for a trampoline at `ip` counts past the last address. -/
def overflows (target : Target) (ip : UInt64) : Bool :=
  target.arch.signalFrame.any fun layout =>
    target.matchOverflows ip (layout.trampoline.map some)

def savedLocations (arch : Arch) (context : UInt64) (locs : Locations)
    (registers : List (Column × UInt64)) : Locations :=
  registers.foldl
    (fun locs (reg, offset) =>
      locs.put reg (.memory ((context + offset) &&& arch.wordMask) (arch.isFp reg)))
    locs

def step (target : Target) (frame : Frame) : Except UnwindError (Option Unwound) := do
  match layoutAt target frame.ip with
  | none =>
      return none
  | some layout =>
      let arch := target.arch
      let sp ← (frame.locs.of arch.sp).read target arch.sp
      let locs := savedLocations arch (sp + layout.contextOffset) frame.locs layout.registers
      let cfa ← (locs.of arch.sp).read target arch.sp
      return some {
        cfa := cfa
        locs := locs
        ipColumn := arch.ip
        method := .signalFrame
        exactIp := true
        raSigned := false }

end StackWalk.Heuristic.SignalFrame
