import StackWalk.Target

/-!
# Where the registers of a frame live

A frame does not hold register values.  It knows for each column where the
value is: still in a register of the innermost frame, in memory, or computed
on the way.  Values are read through the target on demand.
-/

namespace StackWalk

/-- Where the value of a register of one frame is. -/
inductive Location where
  /-- The value cannot be recovered in this frame. -/
  | lost
  /-- Still in a machine register of the innermost frame. -/
  | register (reg : Column) (fp : Bool)
  /-- Saved in memory. -/
  | memory (addr : UInt64) (fp : Bool)
  /-- Stored nowhere, only computed.  It cannot be written. -/
  | value (word : UInt64)
  deriving DecidableEq, Repr, Inhabited

namespace Location

def withFp (loc : Location) (fp : Bool) : Location :=
  match loc with
  | register reg _ => register reg fp
  | memory addr _ => memory addr fp
  | other => other

/-- Whether the place is marked as holding a floating-point image. -/
def isFp : Location → Bool
  | register _ fp => fp
  | memory _ fp => fp
  | _ => false

def isLost : Location → Bool
  | lost => true
  | _ => false

/-- The integer value of the column `reg` that has this location. -/
def read (loc : Location) (target : Target) (reg : Column) : Except UnwindError UInt64 :=
  match loc with
  | lost => .error (.badRegister (UInt64.ofNat reg))
  | register source _ => target.loadReg source
  | memory addr _ => target.readWord addr
  | value word => .ok word

end Location

namespace Arch

/-- Words of a floating-point image in memory, at least one. -/
def imageWords (arch : Arch) : Nat :=
  max (arch.fpSize.toNat / arch.addressSize) 1

/-- The addresses of the words of an image at `addr`, lowest first.  An image
that would wrap around the end of memory is unreadable. -/
def imageAddresses (arch : Arch) (addr : UInt64) : Except UnwindError (List UInt64) :=
  let length := UInt64.ofNat arch.imageWords * arch.wordSize
  match checkedAdd addr (length - 1) with
  | none => .error (.unreadable addr)
  | some _ => .ok ((List.range arch.imageWords).map fun i => addr + UInt64.ofNat i * arch.wordSize)

def imageOfWords (arch : Arch) (words : List UInt64) : FpImage :=
  let leastFirst :=
    match arch.endian with
    | .little => words
    | .big => words.reverse
  leastFirst.foldr
    (fun word image => (image <<< (8 * arch.addressSize)) ||| word.toBitVec.setWidth 128) 0

/-- The words of an image, in order of their addresses. -/
def wordsOfImage (arch : Arch) (image : FpImage) : List UInt64 :=
  let leastFirst :=
    (List.range arch.imageWords).map fun i =>
      UInt64.ofBitVec ((image >>> (8 * arch.addressSize * i)).setWidth 64)
  match arch.endian with
  | .little => leastFirst
  | .big => leastFirst.reverse

theorem length_wordsOfImage (arch : Arch) (image : FpImage) :
    (arch.wordsOfImage image).length = arch.imageWords := by
  unfold wordsOfImage
  cases arch.endian <;> simp

end Arch

/-- The floating-point image of the column `reg` that has this location. -/
def Location.readFp (loc : Location) (target : Target) (reg : Column) :
    Except UnwindError FpImage :=
  match loc with
  | .lost => .error (.badRegister (UInt64.ofNat reg))
  | .register source _ => target.loadFpReg source
  | .memory addr _ => do
      let addrs ← target.arch.imageAddresses addr
      let words ← addrs.mapM target.readWord
      return target.arch.imageOfWords words
  | .value word => .ok (word.toBitVec.setWidth 128)

/-- The locations of all columns of one frame. -/
abbrev Locations := Vector Location maxColumns

namespace Locations

/-- The location of a column; columns that are not kept are lost. -/
def of (locs : Locations) (reg : Column) : Location :=
  locs[reg]?.getD .lost

def put (locs : Locations) (reg : Column) (loc : Location) : Locations :=
  locs.setIfInBounds reg loc

/-- The innermost frame: every register is where the machine has it. -/
def live (arch : Arch) : Locations :=
  Vector.ofFn fun reg =>
    if reg.val < arch.numRegs then
      .register reg.val (arch.isFp reg.val)
    else
      .lost

@[simp] theorem of_put_self {locs : Locations} {reg : Column} {loc : Location}
    (h : reg < maxColumns) : (locs.put reg loc).of reg = loc := by
  simp [Locations.of, put, h]

@[simp] theorem of_put_ne {locs : Locations} {reg other : Column} {loc : Location}
    (h : reg ≠ other) : (locs.put reg loc).of other = locs.of other := by
  simp [Locations.of, put, h]

end Locations
end StackWalk
