import StackWalk.Leb128

/-!
# Encoded pointers

Exception frame sections store pointers under an encoding byte.  The low four
bits give the format of the stored value, the next three what it is relative
to, and the highest bit says that the pointer is the address of the real one.
The byte `0xff` stands for a pointer that is left out.
-/

namespace StackWalk

/-- The format of a stored value. -/
inductive ValueFormat where
  | absptr
  | uleb128
  | udata2
  | udata4
  | udata8
  | sleb128
  | sdata2
  | sdata4
  | sdata8
  deriving DecidableEq, Repr

namespace ValueFormat

def name : ValueFormat → String
  | absptr => "DW_EH_PE_absptr"
  | uleb128 => "DW_EH_PE_uleb128"
  | udata2 => "DW_EH_PE_udata2"
  | udata4 => "DW_EH_PE_udata4"
  | udata8 => "DW_EH_PE_udata8"
  | sleb128 => "DW_EH_PE_sleb128"
  | sdata2 => "DW_EH_PE_sdata2"
  | sdata4 => "DW_EH_PE_sdata4"
  | sdata8 => "DW_EH_PE_sdata8"

def bits : ValueFormat → UInt8
  | absptr => 0x00
  | uleb128 => 0x01
  | udata2 => 0x02
  | udata4 => 0x03
  | udata8 => 0x04
  | sleb128 => 0x09
  | sdata2 => 0x0a
  | sdata4 => 0x0b
  | sdata8 => 0x0c

def all : List ValueFormat :=
  [absptr, uleb128, udata2, udata4, udata8, sleb128, sdata2, sdata4, sdata8]

end ValueFormat

/-- What a stored value is relative to. -/
inductive PointerBase where
  /-- Nothing. -/
  | absolute
  /-- The address of the stored value itself. -/
  | field
  /-- The start of the code section. -/
  | text
  /-- The start of the data or of the search table. -/
  | data
  /-- The start of the function. -/
  | function
  /-- Nothing; the value is an aligned word. -/
  | aligned
  deriving DecidableEq, Repr

namespace PointerBase

def name : PointerBase → String
  | absolute => "DW_EH_PE_absptr"
  | field => "DW_EH_PE_pcrel"
  | text => "DW_EH_PE_textrel"
  | data => "DW_EH_PE_datarel"
  | function => "DW_EH_PE_funcrel"
  | aligned => "DW_EH_PE_aligned"

def bits : PointerBase → UInt8
  | absolute => 0x00
  | field => 0x10
  | text => 0x20
  | data => 0x30
  | function => 0x40
  | aligned => 0x50

def all : List PointerBase :=
  [absolute, field, text, data, function, aligned]

end PointerBase

/-- An encoding byte. -/
structure PointerEncoding where
  byte : UInt8
  deriving DecidableEq, Repr

namespace PointerEncoding

def omitted : PointerEncoding := ⟨0xff⟩

def absolute : PointerEncoding := ⟨0x00⟩

def alignedWord : PointerEncoding := ⟨0x50⟩

def isOmitted (encoding : PointerEncoding) : Bool :=
  encoding == omitted

def isIndirect (encoding : PointerEncoding) : Bool :=
  encoding.byte &&& 0x80 != 0

/-- The same format, relative to nothing. -/
def formatOnly (encoding : PointerEncoding) : PointerEncoding :=
  ⟨encoding.byte &&& 0x0f⟩

def format (encoding : PointerEncoding) : Except UnwindError ValueFormat :=
  match ValueFormat.all.find? fun format => format.bits == encoding.byte &&& 0x0f with
  | some format => .ok format
  | none => .error (.invalidArgument .pointerFormat)

def base (encoding : PointerEncoding) : Except UnwindError PointerBase :=
  match PointerBase.all.find? fun base => base.bits == encoding.byte &&& 0x70 with
  | some base => .ok base
  | none => .error (.invalidArgument .pointerApplication)

/-- The size of a stored value in bytes; `none` when it varies. -/
def size (encoding : PointerEncoding) (addressSize : Nat) : Except UnwindError (Option Nat) := do
  match ← encoding.format with
  | .absptr => return some addressSize
  | .uleb128 | .sleb128 => return none
  | .udata2 | .sdata2 => return some 2
  | .udata4 | .sdata4 => return some 4
  | .udata8 | .sdata8 => return some 8

/-- The encoding in words: base, format and the mark of an indirect pointer,
or the bare byte when one of them is not valid. -/
def describe (encoding : PointerEncoding) : String :=
  if encoding.isOmitted then
    "DW_EH_PE_omit"
  else
    match encoding.base, encoding.format with
    | .ok base, .ok format =>
        base.name ++ " | " ++ format.name ++
          (if encoding.isIndirect then " | DW_EH_PE_indirect" else "")
    | _, _ =>
        "Encoding(" ++ hex encoding.byte.toNat ++ ")"

end PointerEncoding

/-- The addresses that stored values may be relative to. -/
structure PointerBases where
  data : UInt64 := 0
  /-- The start of the code section, where it is known. -/
  text : Option UInt64 := none
  function : UInt64 := 0
  deriving DecidableEq, Repr, Inhabited

namespace Target

/-- A stored value as a word, before anything is added to it. -/
def readStored (target : Target) : ValueFormat → Scan UInt64
  | .absptr => target.readTargetWord
  | .uleb128 => target.readULeb128
  | .udata2 => target.readUInt 2
  | .udata4 => target.readUInt 4
  | .udata8 => target.readUInt 8
  | .sleb128 => Int64.toUInt64 <$> target.readSLeb128
  | .sdata2 => signExtend 16 <$> target.readUInt 2
  | .sdata4 => signExtend 32 <$> target.readUInt 4
  | .sdata8 => target.readUInt 8

/-- A word at the next address that is a multiple of the word size. -/
def readAlignedWord (target : Target) : Scan UInt64 := do
  let pos ← get
  let size := target.arch.wordSize
  let above ← advance pos (size - 1)
  set (alignDown above size)
  target.readTargetWord

def relativeTo (bases : PointerBases) (fieldAddr value : UInt64) :
    PointerBase → Except UnwindError UInt64
  | .absolute => .ok value
  | .field => .ok (value + fieldAddr)
  | .text =>
      match bases.text with
      | some text => .ok (value + text)
      | none => .error (.invalidArgument .noTextBase)
  | .data => .ok (value + bases.data)
  | .function => .ok (value + bases.function)
  | .aligned => .error (.invalidArgument .alignedWithFormat)

def dereference (target : Target) (addr : UInt64) : Except UnwindError UInt64 :=
  Action.answer target.readTargetWord addr

/-- The pointer that a stored value stands for.  A zero is no pointer,
whatever it would be relative to. -/
def pointerOfStored (target : Target) (encoding : PointerEncoding) (bases : PointerBases)
    (fieldAddr value : UInt64) : Except UnwindError UInt64 := do
  if value = 0 then
    return 0
  let base ← encoding.base
  let pointer ← relativeTo bases fieldAddr value base
  let pointer := pointer &&& target.arch.wordMask
  if encoding.isIndirect then
    target.dereference pointer
  else
    return pointer

/-- A pointer stored under `encoding`. -/
def readPointer (target : Target) (encoding : PointerEncoding) (bases : PointerBases) :
    Scan UInt64 := do
  if encoding.isOmitted then
    return 0
  else if encoding = .alignedWord then
    target.readAlignedWord
  else
    let fieldAddr ← get
    let format ← encoding.format
    let value ← target.readStored format
    target.pointerOfStored encoding bases fieldAddr value

theorem readStored_movesForward (target : Target) (format : ValueFormat) :
    (target.readStored format).MovesForward := by
  cases format with
  | absptr => exact target.readTargetWord_movesForward
  | uleb128 => exact target.readULeb128_movesForward
  | udata2 => exact target.readUInt_movesForward 2
  | udata4 => exact target.readUInt_movesForward 4
  | udata8 => exact target.readUInt_movesForward 8
  | sleb128 => exact .map _ target.readSLeb128_movesForward
  | sdata2 => exact .map _ (target.readUInt_movesForward 2)
  | sdata4 => exact .map _ (target.readUInt_movesForward 4)
  | sdata8 => exact target.readUInt_movesForward 8

/-- The word lies behind the position it was asked for at. -/
theorem readAlignedWord_ensures (target : Target) (pos : UInt64) :
    Action.Ensures target.readAlignedWord pos fun _ next =>
      pos.toNat + target.arch.wordSize.toNat ≤ next.toNat := by
  refine .bind .get ?_
  rintro _ _ ⟨rfl, rfl⟩
  refine .bind .ofExcept ?_
  rintro above pos ⟨habove, rfl⟩
  refine .bind .set ?_
  rintro _ _ rfl
  refine (target.readUInt_ensures target.arch.addressSize _).mono ?_
  rintro value next hnext
  have hsum := toNat_advance habove
  have hsize : (UInt64.ofNat target.arch.addressSize).toNat = target.arch.wordSize.toNat := rfl
  rw [toNat_alignDown, hsum, hsize] at hnext
  by_cases hzero : target.arch.wordSize = 0
  · -- Without a size the sum only fits if it began at zero.
    have hmax : (target.arch.wordSize - 1).toNat = 2 ^ 64 - 1 := by
      rw [hzero]
      rfl
    have hlt := above.toNat_lt
    have hnone : target.arch.wordSize.toNat = 0 := by
      rw [hzero]
      rfl
    omega
  · have hpos : 0 < target.arch.wordSize.toNat := by
      apply Nat.pos_of_ne_zero
      intro hnat
      exact hzero (UInt64.toNat_inj.mp hnat)
    have hone : (1 : UInt64) ≤ target.arch.wordSize := by
      rw [UInt64.le_iff_toNat_le]
      exact hpos
    have hless : (target.arch.wordSize - 1).toNat = target.arch.wordSize.toNat - 1 :=
      UInt64.toNat_sub_of_le _ _ hone
    rw [hless] at hnext
    have hrem := Nat.mod_lt (pos.toNat + (target.arch.wordSize.toNat - 1)) hpos
    omega

theorem readAlignedWord_movesForward (target : Target) :
    target.readAlignedWord.MovesForward :=
  fun pos => (target.readAlignedWord_ensures pos).mono fun _ _ h => by omega

theorem readPointer_movesForward (target : Target) (encoding : PointerEncoding)
    (bases : PointerBases) : (target.readPointer encoding bases).MovesForward := by
  unfold readPointer
  split
  · exact .pure _
  · split
    · exact target.readAlignedWord_movesForward
    · refine .bind ?_ fun fieldAddr => .bind (.ofExcept _) fun format =>
        .bind (target.readStored_movesForward format) fun value => .ofExcept _
      intro pos a next h
      cases h
      exact Nat.le_refl _

end Target
end StackWalk
