import StackWalk.Proofs.Cfi.FrameChain
import StackWalk.Proofs.Unread

/-!
# Chains that some bytes are not read for

Where a part of the memory is enough to read an entry, the entry is the same in
the whole, whatever stands in the rest.  So is a chain up to its end.
-/

namespace StackWalk.Cfi

variable {part whole : Target} {bases : PointerBases} {address : UInt64} (h : part.PartOf whole)

include h

/-! ## Headers -/

theorem readEntryLength_sameOrUnreadable :
    Scan.SameOrUnreadable (readEntryLength part) (readEntryLength whole) :=
  .bind (Target.readUInt_sameOrUnreadable h 4) fun _ =>
    .ite (.bind (Target.readUInt_sameOrUnreadable h 8) fun _ => .refl _) (.refl _)

theorem readEntryId_sameOrUnreadable (length : UInt64) (is64 : Bool) :
    Scan.SameOrUnreadable (readEntryId part length is64) (readEntryId whole length is64) :=
  .bind (.refl _) fun _ => .bind (.refl _) fun _ =>
    .bind (Target.readUInt_sameOrUnreadable h _) fun _ => .refl _

theorem entryHeader_sameOrUnreadable (address : UInt64) :
    SameOrUnreadable (entryHeader part address) (entryHeader whole address) := by
  have hscan : Scan.SameOrUnreadable (readEntryHeader part) (readEntryHeader whole) :=
    .bind (readEntryLength_sameOrUnreadable h) fun length =>
      .ite (.refl _) (readEntryId_sameOrUnreadable h length.1 length.2)
  exact hscan.answer address

/-! ## Common information entries -/

theorem readAugmentationString_sameOrUnreadable (room : Nat) :
    Scan.SameOrUnreadable (readAugmentationString part room)
      (readAugmentationString whole room) := by
  induction room with
  | zero => exact .bind (Target.readU8_sameOrUnreadable h) fun _ => .refl _
  | succ room ih =>
      exact .bind (Target.readU8_sameOrUnreadable h) fun _ =>
        .ite (.refl _) (.bind ih fun _ => .refl _)

theorem readSizes_sameOrUnreadable (version : UInt8) :
    Scan.SameOrUnreadable (readSizes part version) (readSizes whole version) := by
  unfold readSizes
  rw [h.arch_eq]
  exact .ite (.bind (Target.readU8_sameOrUnreadable h) fun _ =>
    .bind (Target.readU8_sameOrUnreadable h) fun _ => .refl _) (.refl _)

theorem readReturnAddress_sameOrUnreadable (version : UInt8) :
    Scan.SameOrUnreadable (readReturnAddress part version) (readReturnAddress whole version) :=
  .ite (.map _ (Target.readU8_sameOrUnreadable h)) (Target.readULeb128_sameOrUnreadable h)

theorem readAugmentationData_sameOrUnreadable (letters : List UInt8)
    (augmentation : Augmentation) :
    Scan.SameOrUnreadable (readAugmentationData part bases letters augmentation)
      (readAugmentationData whole bases letters augmentation) := by
  have byte := Target.readU8_sameOrUnreadable h
  induction letters generalizing augmentation with
  | nil => exact .refl _
  | cons letter rest ih =>
      unfold readAugmentationData
      split
      · exact .bind byte fun _ => ih _
      · exact .bind byte fun _ => ih _
      · exact .bind byte fun _ =>
          .bind (Target.readPointer_sameOrUnreadable h _ _) fun _ => ih _
      · exact ih _
      · exact .refl _

theorem readAugmentation_sameOrUnreadable (stop : UInt64) (letters : List UInt8) :
    Scan.SameOrUnreadable (readAugmentation part bases stop letters)
      (readAugmentation whole bases stop letters) := by
  unfold readAugmentation
  split
  · exact .bind (Target.readULeb128_sameOrUnreadable h) fun _ => .bind (.refl _) fun _ =>
      .bind (.refl _) fun _ => .bind (readAugmentationData_sameOrUnreadable h _ _) fun _ =>
      .refl _
  · exact .refl _

theorem readCieBody_sameOrUnreadable (address stop : UInt64) :
    Scan.SameOrUnreadable (readCieBody part bases address stop)
      (readCieBody whole bases address stop) := by
  unfold readCieBody
  rw [h.arch_eq]
  exact .bind (Target.readU8_sameOrUnreadable h) fun version => .ite (.refl _) <|
    .bind (readAugmentationString_sameOrUnreadable h _) fun letters =>
    .bind (readSizes_sameOrUnreadable h version) fun _ =>
    .bind (Target.readULeb128_sameOrUnreadable h) fun _ =>
    .bind (Target.readSLeb128_sameOrUnreadable h) fun _ =>
    .bind (readReturnAddress_sameOrUnreadable h version) fun _ =>
    .bind (.refl _) fun _ => .bind (.refl _) fun _ =>
    .bind (readAugmentation_sameOrUnreadable h stop letters) fun _ => .refl _

theorem parseCie_sameOrUnreadable (address : UInt64) (frameSection : FrameSection) :
    SameOrUnreadable (parseCie part address frameSection bases)
      (parseCie whole address frameSection bases) :=
  .bind (entryHeader_sameOrUnreadable h address) fun header =>
    .ite ((readCieBody_sameOrUnreadable h address header.stop).answer header.body) (.refl _)

/-! ## Frame description entries -/

theorem readLsda_sameOrUnreadable (augmentation : Augmentation) (start : UInt64) :
    Scan.SameOrUnreadable (readLsda part bases augmentation start)
      (readLsda whole bases augmentation start) := by
  refine .ite (.bind (Target.readULeb128_sameOrUnreadable h) fun _ => .bind (.refl _) fun _ =>
    .bind (.refl _) fun _ => ?_) (.refl _)
  exact .ite (.refl _) (.bind (Target.readPointer_sameOrUnreadable h _ _) fun _ => .refl _)

theorem readFdeBody_sameOrUnreadable (address : UInt64) (cie : Cie) (stop : UInt64) :
    Scan.SameOrUnreadable (readFdeBody part bases address cie stop)
      (readFdeBody whole bases address cie stop) := by
  unfold readFdeBody
  rw [h.arch_eq]
  exact .bind (Target.readPointer_sameOrUnreadable h _ _) fun start =>
    .bind (Target.readPointer_sameOrUnreadable h _ _) fun _ =>
    .bind (readLsda_sameOrUnreadable h _ start) fun _ => .refl _

theorem parseFde_sameOrUnreadable (address : UInt64) (frameSection : FrameSection) :
    SameOrUnreadable (parseFde part address frameSection bases)
      (parseFde whole address frameSection bases) :=
  .bind (entryHeader_sameOrUnreadable h address) fun header => .ite (.refl _) <|
    .bind (parseCie_sameOrUnreadable h _ frameSection) fun cie =>
      (readFdeBody_sameOrUnreadable h address cie header.stop).answer header.body

/-! ## Chains -/

/-- A chain that a part of the memory is enough for is one of the whole. -/
theorem Chain.of_part {fdes : List Fde} (hchain : Chain part bases address fdes) :
    Chain whole bases address fdes := by
  induction hchain with
  | @stop address hempty =>
      exact .stop ((entryHeader_sameOrUnreadable h address).eq_error hempty)
  | @cie address header fdes hheader hkind hrest ih =>
      exact .cie ((entryHeader_sameOrUnreadable h address).eq_ok hheader) hkind ih
  | @fde address header fde fdes hheader hkind hparse hrest ih =>
      exact .fde ((entryHeader_sameOrUnreadable h address).eq_ok hheader) hkind
        ((parseFde_sameOrUnreadable h address .ehFrame).eq_ok hparse) ih

end StackWalk.Cfi
