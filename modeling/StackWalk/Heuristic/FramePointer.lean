import StackWalk.Unwound

/-!
# The chain of frame pointers

The frame pointer of a function that keeps one points at a record of two
words: the caller's frame pointer and the return address.  The caller's stack
pointer is just above.  The outermost frame has a frame pointer of zero.
-/

namespace StackWalk.Heuristic.FramePointer

/-- The value of a register that may be lost. -/
def readIfKept (loc : Location) (target : Target) (reg : Column) :
    Except UnwindError (Option UInt64) :=
  match loc.read target reg with
  | .ok value => .ok (some value)
  | .error (.badRegister _) => .ok none
  | .error e => .error e

/-- The address `length` bytes into a record, if the target has it. -/
def inRecord (arch : Arch) (fp length : UInt64) : Option UInt64 :=
  (checkedAdd fp length).filter (· ≤ arch.wordMask)

/-- The caller's frame by the record at `fp`. -/
def ofRecord (target : Target) (frame : Frame) (fpReg : Column) (fp : UInt64) :
    Except UnwindError (Option Unwound) := do
  let arch := target.arch
  match inRecord arch fp arch.wordSize, inRecord arch fp (2 * arch.wordSize) with
  | some slot, some cfa =>
      let _ ← target.readWord slot
      let locs := frame.locs.put fpReg (.memory fp false)
      let locs := locs.put arch.returnAddress (.memory slot false)
      return some {
        cfa := cfa
        locs := locs.put arch.sp (.value cfa)
        ipColumn := arch.returnAddress
        method := .framePointer
        exactIp := false
        raSigned := false }
  | _, _ =>
      return none

def step (target : Target) (frame : Frame) : Except UnwindError (Option Unwound) := do
  match target.arch.fp with
  | none =>
      return none
  | some fpReg =>
      match ← readIfKept (frame.locs.of fpReg) target fpReg with
      | none =>
          return none
      | some fp =>
          if fp = 0 then
            throw .stopUnwind
          else if fp % target.arch.wordSize ≠ 0 then
            return none
          else
            ofRecord target frame fpReg fp

end StackWalk.Heuristic.FramePointer
