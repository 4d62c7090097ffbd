import Mathlib.Tactic
import StackWalk.Cfi.Entry
import StackWalk.Proofs.Action
import StackWalk.Proofs.Leb128

/-!
# Why an entry cannot be read

An entry is read from memory that may be unreadable, and what stands there may
be malformed, of another version, or name a register that does not exist.
Nothing else goes wrong.  So reading an entry never answers that an address has
no unwind information: only a search does.
-/

namespace StackWalk

/-- Where memory cannot be read it says so. -/
def Target.FailsUnreadable (target : Target) : Prop :=
  ∀ addr e, target.loadWord addr = .error e → ∃ unread, e = .unreadable unread

/-- The entry, or what it is read from, is to blame. -/
def UnwindError.OfEntry : UnwindError → Prop
  | .unreadable _ | .invalidArgument _ | .badVersion _ | .badRegister _ => True
  | _ => False

theorem UnwindError.OfEntry.ne_noInfo {e : UnwindError} (h : e.OfEntry) (ip : UInt64) :
    e ≠ .noInfo ip := by
  rintro rfl
  exact h

/-- The error is not that an address has no unwind information. -/
def UnwindError.HasInfo : UnwindError → Prop
  | .noInfo _ => False
  | _ => True

theorem UnwindError.OfEntry.hasInfo {e : UnwindError} (h : e.OfEntry) : e.HasInfo := by
  unfold HasInfo
  split
  · exact h
  · trivial

theorem UnwindError.HasInfo.ne_noInfo {e : UnwindError} (h : e.HasInfo) (ip : UInt64) :
    e ≠ .noInfo ip := by
  rintro rfl
  exact h

open UnwindError

theorem advance_ofEntry {pos length : UInt64} {e : UnwindError}
    (h : advance pos length = .error e) : e.OfEntry := by
  unfold advance at h
  split at h <;> cases h
  trivial

namespace PointerEncoding

theorem format_ofEntry {encoding : PointerEncoding} {e : UnwindError}
    (h : encoding.format = .error e) : e.OfEntry := by
  unfold format at h
  split at h <;> cases h
  trivial

theorem base_ofEntry {encoding : PointerEncoding} {e : UnwindError}
    (h : encoding.base = .error e) : e.OfEntry := by
  unfold base at h
  split at h <;> cases h
  trivial

end PointerEncoding

/-! ## Readers -/

namespace Target

variable {target : Target} (hmemory : target.FailsUnreadable)

theorem relativeTo_ofEntry {bases : PointerBases} {fieldAddr value : UInt64} {base : PointerBase}
    {e : UnwindError} (h : relativeTo bases fieldAddr value base = .error e) : e.OfEntry := by
  cases base with
  | text =>
      unfold relativeTo at h
      cases hbase : bases.text <;> simp only [hbase] at h <;> cases h
      trivial
  | aligned =>
      cases h
      trivial
  | _ => cases h

include hmemory

theorem readByte_ofEntry {addr : UInt64} {e : UnwindError}
    (h : target.readByte addr = .error e) : e.OfEntry := by
  rcases bind_eq_error_iff.mp h with hword | ⟨word, -, hbyte⟩
  · rcases bind_eq_error_iff.mp hword with hload | ⟨word, -, hcut⟩
    · obtain ⟨unread, rfl⟩ := hmemory _ _ hload
      trivial
    · cases hcut
  · cases hbyte

theorem readBytes_ofEntry {addr : UInt64} {count : Nat} {e : UnwindError}
    (h : target.readBytes addr count = .error e) : e.OfEntry := by
  induction count generalizing addr with
  | zero => cases h
  | succ count ih =>
      rw [readBytes] at h
      rcases bind_eq_error_iff.mp h with hbyte | ⟨byte, -, h⟩
      · exact readByte_ofEntry hmemory hbyte
      · rcases bind_eq_error_iff.mp h with hrest | ⟨rest, -, hbytes⟩
        · exact ih hrest
        · cases hbytes

theorem readU8_failsWith : target.readU8.FailsWith OfEntry :=
  .bind .get fun _ => .bind (.lift fun _ => advance_ofEntry) fun _ =>
    .bind (.lift fun _ => readByte_ofEntry hmemory) fun _ => .bind (.set _) fun _ => .pure _

theorem readUInt_failsWith (size : Nat) : (target.readUInt size).FailsWith OfEntry :=
  .bind .get fun _ => .bind (.lift fun _ => advance_ofEntry) fun _ =>
    .bind (.lift fun _ => readBytes_ofEntry hmemory) fun _ => .bind (.set _) fun _ => .pure _

theorem readLeb128Bytes_failsWith : Action.FailsWith OfEntry target.readLeb128Bytes := by
  intro pos e after h
  fun_induction target.readLeb128Bytes pos with
  | case1 pos e' next hread =>
      cases h
      exact readU8_failsWith hmemory pos e after hread
  | case2 => cases h
  | case3 pos byte next hread hmore e' last hrest ih =>
      cases h
      exact ih hrest
  | case4 => cases h

theorem readULeb128_failsWith : target.readULeb128.FailsWith OfEntry :=
  .bind (readLeb128Bytes_failsWith hmemory) fun _ => .pure _

theorem readSLeb128_failsWith : target.readSLeb128.FailsWith OfEntry :=
  .bind (readLeb128Bytes_failsWith hmemory) fun _ => .pure _

theorem readTargetWord_failsWith : target.readTargetWord.FailsWith OfEntry :=
  readUInt_failsWith hmemory _

theorem readStored_failsWith (format : ValueFormat) :
    (target.readStored format).FailsWith OfEntry := by
  cases format with
  | absptr => exact readTargetWord_failsWith hmemory
  | uleb128 => exact readULeb128_failsWith hmemory
  | sleb128 => exact .map _ (readSLeb128_failsWith hmemory)
  | udata2 | udata4 | udata8 | sdata8 => exact readUInt_failsWith hmemory _
  | sdata2 | sdata4 => exact .map _ (readUInt_failsWith hmemory _)

theorem readAlignedWord_failsWith : target.readAlignedWord.FailsWith OfEntry :=
  .bind .get fun _ => .bind (.lift fun _ => advance_ofEntry) fun _ =>
    .bind (.set _) fun _ => readTargetWord_failsWith hmemory

theorem pointerOfStored_ofEntry {encoding : PointerEncoding} {bases : PointerBases}
    {fieldAddr value : UInt64} {e : UnwindError}
    (h : target.pointerOfStored encoding bases fieldAddr value = .error e) : e.OfEntry := by
  unfold pointerOfStored at h
  split at h
  · cases h
  · rcases bind_eq_error_iff.mp h with hbase | ⟨base, -, h⟩
    · exact PointerEncoding.base_ofEntry hbase
    · rcases bind_eq_error_iff.mp h with hpointer | ⟨pointer, -, h⟩
      · exact relativeTo_ofEntry hpointer
      · split at h
        · exact (readTargetWord_failsWith hmemory).of_answer h
        · cases h

theorem readPointer_failsWith (encoding : PointerEncoding) (bases : PointerBases) :
    (target.readPointer encoding bases).FailsWith OfEntry := by
  refine .ite (.pure _) (.ite (readAlignedWord_failsWith hmemory) ?_)
  exact .bind .get fun _ => .bind (.lift fun _ => PointerEncoding.format_ofEntry) fun _ =>
    .bind (readStored_failsWith hmemory _) fun _ => .lift fun _ => pointerOfStored_ofEntry hmemory

end Target

namespace Cfi

variable {target : Target} (hmemory : target.FailsUnreadable)

/-! ## Parts of an entry -/

theorem entryEnd_ofEntry {start length : UInt64} {e : UnwindError}
    (h : entryEnd start length = .error e) : e.OfEntry := by
  unfold entryEnd at h
  split at h <;> cases h
  trivial

theorem augmentationEnd_ofEntry {start length : UInt64} {limit : Option UInt64} {overrun : Defect}
    {e : UnwindError} (h : augmentationEnd start length limit overrun = .error e) :
    e.OfEntry := by
  unfold augmentationEnd at h
  split at h
  · split at h <;> cases h
    trivial
  · cases h
    trivial

theorem checkFactors_ofEntry {codeAlign : UInt64} {dataAlign : Int64} {e : UnwindError}
    (h : checkFactors codeAlign dataAlign = .error e) : e.OfEntry := by
  unfold checkFactors at h
  split at h
  · cases h
    trivial
  · split at h <;> cases h
    trivial

theorem checkReg_ofEntry {arch : Arch} {reg : UInt64} {e : UnwindError}
    (h : arch.checkReg reg = .error e) : e.OfEntry := by
  unfold Arch.checkReg at h
  split at h <;> cases h
  trivial

theorem restOfEntry_ofEntry {pos stop : UInt64} {overrun : Defect} {e : UnwindError}
    (h : restOfEntry pos stop overrun = .error e) : e.OfEntry := by
  unfold restOfEntry at h
  split at h <;> cases h
  trivial

include hmemory

theorem entryHeader_ofEntry {address : UInt64} {e : UnwindError}
    (h : entryHeader target address = .error e) : e.OfEntry := by
  have hid (length : UInt64) (is64 : Bool) :
      (readEntryId target length is64).FailsWith OfEntry :=
    .bind .get fun _ => .bind (.lift fun _ => entryEnd_ofEntry) fun _ =>
      .bind (Target.readUInt_failsWith hmemory _) fun _ => .bind .get fun _ =>
        .ite (.throw trivial) (.pure _)
  have hlength : (readEntryLength target).FailsWith OfEntry :=
    .bind (Target.readUInt_failsWith hmemory 4) fun _ =>
      .ite (.bind (Target.readUInt_failsWith hmemory 8) fun _ => .pure _) (.pure _)
  have hheader : (readEntryHeader target).FailsWith OfEntry :=
    .bind hlength fun _ => .ite (.throw trivial) (hid _ _)
  exact hheader.of_answer h

theorem readAugmentationString_failsWith (room : Nat) :
    (readAugmentationString target room).FailsWith OfEntry := by
  induction room with
  | zero =>
      exact .bind (Target.readU8_failsWith hmemory) fun _ => .ite (.pure _) (.throw trivial)
  | succ room ih =>
      exact .bind (Target.readU8_failsWith hmemory) fun _ =>
        .ite (.pure _) (.bind ih fun _ => .pure _)

theorem readAugmentationData_failsWith (bases : PointerBases) (letters : List UInt8)
    (augmentation : Augmentation) :
    (readAugmentationData target bases letters augmentation).FailsWith OfEntry := by
  induction letters generalizing augmentation with
  | nil => exact .pure _
  | cons letter rest ih =>
      unfold readAugmentationData
      split
      · exact .bind (Target.readU8_failsWith hmemory) fun _ => ih _
      · exact .bind (Target.readU8_failsWith hmemory) fun _ => ih _
      · exact .bind (Target.readU8_failsWith hmemory) fun _ =>
          .bind (Target.readPointer_failsWith hmemory _ _) fun _ => ih _
      · exact ih _
      · exact .pure _

theorem readAugmentation_failsWith (bases : PointerBases) (stop : UInt64)
    (letters : List UInt8) :
    (readAugmentation target bases stop letters).FailsWith OfEntry := by
  unfold readAugmentation
  split
  · exact .bind (Target.readULeb128_failsWith hmemory) fun _ => .bind .get fun _ =>
      .bind (.lift fun _ => augmentationEnd_ofEntry) fun _ =>
        .bind (readAugmentationData_failsWith hmemory _ _ _) fun _ =>
          .bind (.set _) fun _ => .pure _
  · exact .ite (.pure _) (.throw trivial)

theorem readSizes_failsWith (version : UInt8) : (readSizes target version).FailsWith OfEntry :=
  .ite (.bind (Target.readU8_failsWith hmemory) fun _ =>
    .bind (Target.readU8_failsWith hmemory) fun _ => .ite (.throw trivial) (.pure _)) (.pure _)

theorem readReturnAddress_failsWith (version : UInt8) :
    (readReturnAddress target version).FailsWith OfEntry :=
  .ite (.map _ (Target.readU8_failsWith hmemory)) (Target.readULeb128_failsWith hmemory)

theorem readCieBody_failsWith (bases : PointerBases) (address stop : UInt64) :
    (readCieBody target bases address stop).FailsWith OfEntry :=
  .bind (Target.readU8_failsWith hmemory) fun _ => .ite (.throw trivial) <|
    .bind (readAugmentationString_failsWith hmemory _) fun _ =>
    .bind (readSizes_failsWith hmemory _) fun _ =>
    .bind (Target.readULeb128_failsWith hmemory) fun _ =>
    .bind (Target.readSLeb128_failsWith hmemory) fun _ =>
    .bind (readReturnAddress_failsWith hmemory _) fun _ =>
    .bind (.lift fun _ => checkFactors_ofEntry) fun _ =>
    .bind (.lift fun _ => checkReg_ofEntry) fun _ =>
    .bind (readAugmentation_failsWith hmemory _ _ _) fun _ => .bind .get fun _ =>
    .bind (.lift fun _ => restOfEntry_ofEntry) fun _ => .pure _

theorem readLsda_failsWith (bases : PointerBases) (augmentation : Augmentation) (start : UInt64) :
    (readLsda target bases augmentation start).FailsWith OfEntry := by
  unfold readLsda
  split
  · refine .bind (Target.readULeb128_failsWith hmemory) fun _ => .bind .get fun _ =>
      .bind (.lift fun _ => augmentationEnd_ofEntry) fun _ => ?_
    split
    · exact .bind (.pure _) fun _ => .bind (.set _) fun _ => .pure _
    · exact .bind (Target.readPointer_failsWith hmemory _ _) fun _ =>
        .bind (.set _) fun _ => .pure _
  · exact .pure _

theorem readFdeBody_failsWith (bases : PointerBases) (address : UInt64) (cie : Cie)
    (stop : UInt64) : (readFdeBody target bases address cie stop).FailsWith OfEntry :=
  .bind (Target.readPointer_failsWith hmemory _ _) fun _ =>
    .bind (Target.readPointer_failsWith hmemory _ _) fun _ =>
    .bind (readLsda_failsWith hmemory _ _ _) fun _ => .bind .get fun _ =>
    .bind (.lift fun _ => restOfEntry_ofEntry) fun _ => .ite (.pure _) (.throw trivial)

/-! ## Whole entries -/

theorem parseCie_ofEntry {address : UInt64} {frameSection : FrameSection} {bases : PointerBases}
    {e : UnwindError} (h : parseCie target address frameSection bases = .error e) :
    e.OfEntry := by
  rcases bind_eq_error_iff.mp h with hheader | ⟨header, -, h⟩
  · exact entryHeader_ofEntry hmemory hheader
  · split at h
    · exact (readCieBody_failsWith hmemory bases address header.stop).of_answer h
    · cases h
      trivial

theorem parseFde_ofEntry {address : UInt64} {frameSection : FrameSection} {bases : PointerBases}
    {e : UnwindError} (h : parseFde target address frameSection bases = .error e) :
    e.OfEntry := by
  rcases bind_eq_error_iff.mp h with hheader | ⟨header, -, h⟩
  · exact entryHeader_ofEntry hmemory hheader
  · split at h
    · cases h
      trivial
    · rcases bind_eq_error_iff.mp h with hcie | ⟨cie, -, hbody⟩
      · exact parseCie_ofEntry hmemory hcie
      · exact (readFdeBody_failsWith hmemory bases address cie header.stop).of_answer hbody

end Cfi
end StackWalk
