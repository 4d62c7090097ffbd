import StackWalk.Location

/-!
# Frames and their callers

A step takes the frame it leaves and works out the caller's.  Nothing is
committed while it does: the result is a value, and a heuristic that does not
apply declines.
-/

namespace StackWalk

/-- How a step found the caller. -/
inductive StepMethod where
  /-- By call frame information. -/
  | cfi
  /-- By a registered region. -/
  | dynamic
  /-- Out of a signal handler, by the interrupted registers. -/
  | signalFrame
  /-- Out of a linkage stub. -/
  | plt
  /-- Along the chain of frame pointers. -/
  | framePointer
  /-- By the link register. -/
  | linkRegister
  deriving DecidableEq, Repr

def StepMethod.name : StepMethod → String
  | .cfi => "Cfi"
  | .dynamic => "Dynamic"
  | .signalFrame => "SignalFrame"
  | .plt => "Plt"
  | .framePointer => "FramePointer"
  | .linkRegister => "LinkRegister"

/-- The frame that a step leaves. -/
structure Frame where
  ip : UInt64
  locs : Locations
  deriving DecidableEq

/-- The caller's frame as a step found it. -/
structure Unwound where
  cfa : UInt64
  locs : Locations
  /-- The column that holds the caller's instruction pointer. -/
  ipColumn : Column
  method : StepMethod
  /-- The caller was interrupted there; the address is not that after a call. -/
  exactIp : Bool
  /-- The caller's instruction pointer is signed. -/
  raSigned : Bool
  deriving DecidableEq

end StackWalk
