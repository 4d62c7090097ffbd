import Mathlib.Tactic
import StackWalk.Cfi.RowAt
import StackWalk.Proofs.Leb128

/-!
# Rows are read from memory alone

Whatever is decoded from call frame information is the same for two threads
that see the same memory: the registers play no part in it until the rules are
applied.  One lemma a reader says so, from single bytes up to the row of an
address.
-/

namespace StackWalk

/-- The same memory with other registers. -/
def Target.withRegisters (target : Target) (loadReg : Column → Except UnwindError UInt64)
    (loadFpReg : Column → Except UnwindError FpImage) : Target :=
  { target with loadReg := loadReg, loadFpReg := loadFpReg }

variable (target : Target) (loadReg : Column → Except UnwindError UInt64)
  (loadFpReg : Column → Except UnwindError FpImage)

namespace Target

@[simp] theorem arch_withRegisters :
    (target.withRegisters loadReg loadFpReg).arch = target.arch := rfl

@[simp] theorem readByte_withRegisters :
    (target.withRegisters loadReg loadFpReg).readByte = target.readByte := rfl

@[simp] theorem readU8_withRegisters :
    (target.withRegisters loadReg loadFpReg).readU8 = target.readU8 := rfl

@[simp] theorem readBytes_withRegisters (pos : UInt64) (count : Nat) :
    (target.withRegisters loadReg loadFpReg).readBytes pos count = target.readBytes pos count := by
  induction count generalizing pos with
  | zero => rfl
  | succ count ih => simp only [readBytes, readByte_withRegisters, ih]

@[simp] theorem readUInt_withRegisters (size : Nat) :
    (target.withRegisters loadReg loadFpReg).readUInt size = target.readUInt size := by
  simp [readUInt]

@[simp] theorem readTargetWord_withRegisters :
    (target.withRegisters loadReg loadFpReg).readTargetWord = target.readTargetWord := by
  simp [readTargetWord]

@[simp] theorem readLeb128Bytes_withRegisters :
    (target.withRegisters loadReg loadFpReg).readLeb128Bytes = target.readLeb128Bytes := by
  funext pos
  fun_induction target.readLeb128Bytes pos with
  | case1 pos e next hread => rw [readLeb128Bytes_eq, readU8_withRegisters, hread]
  | case2 pos byte next hread hcont rest last hrest ih =>
      rw [readLeb128Bytes_eq, readU8_withRegisters, hread]
      simp only [hcont, ih, hrest, if_true]
  | case3 pos byte next hread hcont e last hrest ih =>
      rw [readLeb128Bytes_eq, readU8_withRegisters, hread]
      simp only [hcont, ih, hrest, if_true]
  | case4 pos byte next hread hcont =>
      rw [readLeb128Bytes_eq, readU8_withRegisters, hread]
      exact if_neg hcont

@[simp] theorem readULeb128_withRegisters :
    (target.withRegisters loadReg loadFpReg).readULeb128 = target.readULeb128 := by
  simp [readULeb128]

@[simp] theorem readSLeb128_withRegisters :
    (target.withRegisters loadReg loadFpReg).readSLeb128 = target.readSLeb128 := by
  simp [readSLeb128]

@[simp] theorem readStored_withRegisters (format : ValueFormat) :
    (target.withRegisters loadReg loadFpReg).readStored format = target.readStored format := by
  cases format <;> simp [readStored]

@[simp] theorem readAlignedWord_withRegisters :
    (target.withRegisters loadReg loadFpReg).readAlignedWord = target.readAlignedWord := by
  simp [readAlignedWord]

@[simp] theorem pointerOfStored_withRegisters (encoding : PointerEncoding)
    (bases : PointerBases) (fieldAddr value : UInt64) :
    (target.withRegisters loadReg loadFpReg).pointerOfStored encoding bases fieldAddr value =
      target.pointerOfStored encoding bases fieldAddr value := by
  simp [pointerOfStored, dereference]

@[simp] theorem readPointer_withRegisters (encoding : PointerEncoding) (bases : PointerBases) :
    (target.withRegisters loadReg loadFpReg).readPointer encoding bases =
      target.readPointer encoding bases := by
  simp [readPointer]

end Target

namespace Cfi

open Target

/-! ## Programs -/

@[simp] theorem readBlock_withRegisters (stop : UInt64) :
    readBlock (target.withRegisters loadReg loadFpReg) stop = readBlock target stop := by
  simp [readBlock]

@[simp] theorem decodeOperands_withRegisters (ctx : ProgramContext) (opcode : UInt8) :
    decodeOperands (target.withRegisters loadReg loadFpReg) ctx opcode =
      decodeOperands target ctx opcode := by
  simp [decodeOperands, decodeExtended]

@[simp] theorem decode_withRegisters (ctx : ProgramContext) :
    decode (target.withRegisters loadReg loadFpReg) ctx = decode target ctx := by
  simp [decode]

theorem listing_eq (ctx : ProgramContext) (pos : UInt64) :
    listing target ctx pos =
      if pos < ctx.stop then
        match decode target ctx pos with
        | .ok instruction next => .ok instruction :: listing target ctx next
        | .error e _ => [.error e]
      else
        [] := by
  rw [listing]
  split
  · cases hdecode : decode target ctx pos <;> rfl
  · rfl

@[simp] theorem listing_withRegisters (ctx : ProgramContext) (pos : UInt64) :
    listing (target.withRegisters loadReg loadFpReg) ctx pos = listing target ctx pos := by
  fun_induction listing target ctx pos with
  | case1 pos hpos instruction next hdecode ih =>
      rw [listing_eq, if_pos hpos, decode_withRegisters, hdecode]
      simp only [ih]
  | case2 pos hpos e next hdecode =>
      rw [listing_eq, if_pos hpos, decode_withRegisters, hdecode]
  | case3 pos hpos => rw [listing_eq, if_neg hpos]

@[simp] theorem rowAt_withRegisters (ws : Workspace) (fde : Fde) (ip : UInt64)
    (bases : PointerBases) :
    rowAt (target.withRegisters loadReg loadFpReg) ws fde ip bases =
      rowAt target ws fde ip bases := by
  simp [rowAt, runEntry, Cie.runProgram, Cie.instructions]

/-! ## Entries -/

@[simp] theorem entryHeader_withRegisters (address : UInt64) :
    entryHeader (target.withRegisters loadReg loadFpReg) address = entryHeader target address := by
  simp [entryHeader, readEntryHeader, readEntryLength, readEntryId]

@[simp] theorem readAugmentationString_withRegisters (room : Nat) :
    readAugmentationString (target.withRegisters loadReg loadFpReg) room =
      readAugmentationString target room := by
  induction room with
  | zero => rfl
  | succ room ih => simp only [readAugmentationString, readU8_withRegisters, ih]

@[simp] theorem readAugmentationData_withRegisters (bases : PointerBases)
    (letters : List UInt8) (augmentation : Augmentation) :
    readAugmentationData (target.withRegisters loadReg loadFpReg) bases letters augmentation =
      readAugmentationData target bases letters augmentation := by
  induction letters generalizing augmentation with
  | nil => rfl
  | cons letter rest ih => simp [readAugmentationData, ih]

@[simp] theorem readAugmentation_withRegisters (bases : PointerBases) (stop : UInt64)
    (letters : List UInt8) :
    readAugmentation (target.withRegisters loadReg loadFpReg) bases stop letters =
      readAugmentation target bases stop letters := by
  simp [readAugmentation]

@[simp] theorem readSizes_withRegisters (version : UInt8) :
    readSizes (target.withRegisters loadReg loadFpReg) version = readSizes target version := rfl

@[simp] theorem readReturnAddress_withRegisters (version : UInt8) :
    readReturnAddress (target.withRegisters loadReg loadFpReg) version =
      readReturnAddress target version := by
  simp only [readReturnAddress, readU8_withRegisters, readULeb128_withRegisters]

@[simp] theorem parseCie_withRegisters (address : UInt64) (frameSection : FrameSection)
    (bases : PointerBases) :
    parseCie (target.withRegisters loadReg loadFpReg) address frameSection bases =
      parseCie target address frameSection bases := by
  simp [parseCie, readCieBody]

@[simp] theorem readFdeBody_withRegisters (bases : PointerBases) (address : UInt64) (cie : Cie)
    (stop : UInt64) :
    readFdeBody (target.withRegisters loadReg loadFpReg) bases address cie stop =
      readFdeBody target bases address cie stop := by
  simp only [readFdeBody, readLsda, readPointer_withRegisters, readULeb128_withRegisters]
  rfl

@[simp] theorem parseFde_withRegisters (address : UInt64) (frameSection : FrameSection)
    (bases : PointerBases) :
    parseFde (target.withRegisters loadReg loadFpReg) address frameSection bases =
      parseFde target address frameSection bases := by
  simp [parseFde]

end Cfi
end StackWalk
