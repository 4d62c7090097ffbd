import StackWalk.Arch.Shipped
import StackWalk.Pointer
import StackWalk.Proofs.Scan

/-!
# Encoded pointers read back

A pointer is stored as its displacement from what the encoding makes it
relative to, in as many bytes as the format has.  Reading extends these bytes
to a word again and adds the same address, so the pointer comes back wherever
the format is wide enough for the displacement.  Whatever the encoding, no
pointer is more than a word of the target.
-/

namespace StackWalk

variable {target : Target} {pos : UInt64}

namespace ValueFormat

/-- Whether the highest stored bit is copied into those above it. -/
def isSigned : ValueFormat → Bool
  | sleb128 | sdata2 | sdata4 | sdata8 => true
  | absptr | uleb128 | udata2 | udata4 | udata8 => false

/-- A number of `width` bits is what its `size` low bytes are read as. -/
def Tells (format : ValueFormat) (size width n : Nat) : Prop :=
  if format.isSigned then
    Int.bmod n (256 ^ size) % 2 ^ width = n
  else
    n % 256 ^ size = n

instance (format : ValueFormat) (size width n : Nat) : Decidable (format.Tells size width n) :=
  inferInstanceAs (Decidable (if format.isSigned then _ else _))

end ValueFormat

/-- The address that a stored value is relative to, if there is one. -/
def PointerBases.addressOf (bases : PointerBases) (fieldAddr : UInt64) :
    PointerBase → Option UInt64
  | .absolute => some 0
  | .field => some fieldAddr
  | .text => bases.text
  | .data => some bases.data
  | .function => some bases.function
  | .aligned => none

/-- Only its low bytes decide what a number is with their sign copied. -/
theorem signExtend_lowBytes {size : Nat} (value : UInt64) :
    signExtend (8 * size) (UInt64.ofNat (value.toNat % 256 ^ size)) =
      signExtend (8 * size) value := by
  have hlow : value.toNat % 256 ^ size < 2 ^ 64 :=
    (Nat.mod_le _ _).trans_lt value.toNat_lt
  have hsame : (UInt64.ofNat (value.toNat % 256 ^ size)).toBitVec.setWidth (8 * size) =
      value.toBitVec.setWidth (8 * size) := by
    apply BitVec.eq_of_toNat_eq
    rw [BitVec.toNat_setWidth, BitVec.toNat_setWidth, UInt64.toNat_toBitVec,
      UInt64.toNat_ofNat_of_lt' hlow, Nat.pow_mul]
    exact Nat.mod_mod _ _
  rw [signExtend, hsame, signExtend]

namespace Target

theorem reads_signExtend (size : Nat) (value : UInt64) :
    target.Reads pos (signExtend (8 * size) <$> target.readUInt size)
      (bytesOfWord target.arch.endian size value) (signExtend (8 * size) value) := by
  rw [map_eq_pure_bind, ← signExtend_lowBytes]
  exact (reads_lowBytes size value).bind_pure rfl

section Displacement

variable {encoding : PointerEncoding} {bases : PointerBases} {format : ValueFormat}
  {base : PointerBase} {size : Nat} {addr pointer : UInt64}

/-- The bytes of a number that a format can tell are read as a word that agrees
with it in the bits of the target. -/
theorem reads_readStored (hformat : encoding.format = .ok format)
    (hsize : encoding.size target.arch.addressSize = .ok (some size)) {value : UInt64}
    (hvalue : value.toNat < 2 ^ target.arch.wordBits)
    (htells : format.Tells size target.arch.wordBits value.toNat) :
    ∃ stored : UInt64, stored.toNat % 2 ^ target.arch.wordBits = value.toNat ∧
      target.Reads pos (target.readStored format)
        (bytesOfWord target.arch.endian size value) stored := by
  have hwhole := Nat.mod_eq_of_lt hvalue
  have hplain : value.toNat % 256 ^ size = value.toNat →
      target.Reads pos (target.readUInt size) (bytesOfWord target.arch.endian size value)
        value := by
    intro h
    have hreads := @reads_lowBytes target pos size value
    rwa [h, UInt64.ofNat_toNat] at hreads
  have hsigned : 8 * size ≤ 64 →
      Int.bmod value.toNat (256 ^ size) % 2 ^ target.arch.wordBits = value.toNat →
      (signExtend (8 * size) value).toNat % 2 ^ target.arch.wordBits = value.toNat := by
    intro hbits h
    zify
    rw [toNat_signExtend_mod hbits target.arch.wordBits_le, Nat.pow_mul]
    exact h
  simp only [PointerEncoding.size, hformat, ok_bind] at hsize
  cases format with
  | uleb128 | sleb128 => cases hsize
  | absptr | udata2 | udata4 | udata8 =>
      cases hsize
      exact ⟨value, hwhole, hplain htells⟩
  | sdata2 =>
      cases hsize
      exact ⟨_, hsigned (by decide) htells, reads_signExtend 2 value⟩
  | sdata4 =>
      cases hsize
      exact ⟨_, hsigned (by decide) htells, reads_signExtend 4 value⟩
  | sdata8 =>
      -- Eight bytes are the whole word, whatever their sign.
      cases hsize
      exact ⟨value, hwhole, hplain (Nat.mod_eq_of_lt value.toNat_lt)⟩

theorem relativeTo_of_addressOf (h : bases.addressOf pos base = some addr) (value : UInt64) :
    relativeTo bases pos value base = .ok (value + addr) := by
  cases base with
  | absolute | field | data | function =>
      cases h
      simp [relativeTo]
  | text =>
      have htext : bases.text = some addr := h
      simp [relativeTo, htext]
  | aligned => cases h

/-- Only a zero is kept from what it is relative to. -/
theorem pointerOfStored_of_addressOf (hbase : encoding.base = .ok base)
    (hdirect : encoding.isIndirect = false) (haddr : bases.addressOf pos base = some addr)
    {value : UInt64} (hvalue : value ≠ 0) :
    target.pointerOfStored encoding bases pos value =
      .ok ((value + addr) &&& target.arch.wordMask) := by
  simp [pointerOfStored, hvalue, hbase, hdirect, relativeTo_of_addressOf haddr]

theorem readPointer_eq (hformat : encoding.format = .ok format) (hbase : encoding.base = .ok base)
    (haddr : bases.addressOf pos base = some addr) :
    target.readPointer encoding bases =
      (get >>= fun fieldAddr => target.readStored format >>= fun value =>
        liftM (target.pointerOfStored encoding bases fieldAddr value)) := by
  have homitted : encoding.isOmitted = false := by
    by_contra h
    obtain rfl : encoding = .omitted := by simpa [PointerEncoding.isOmitted] using h
    cases hformat
  have haligned : encoding ≠ .alignedWord := by
    rintro rfl
    cases hbase
    cases haddr
  unfold readPointer
  simp only [homitted, haligned, hformat, if_false, Bool.false_eq_true]
  rfl

/-- What stands for the displacement of a pointer is read as the pointer. -/
theorem reads_displacement (hformat : encoding.format = .ok format)
    (hsize : encoding.size target.arch.addressSize = .ok (some size))
    (hbase : encoding.base = .ok base) (hdirect : encoding.isIndirect = false)
    (haddr : bases.addressOf pos base = some addr) (hpointer : pointer ≤ target.arch.wordMask)
    (hzero : target.arch.wordOf (pointer.toNat - addr.toNat) ≠ 0)
    (htells : format.Tells size target.arch.wordBits
      (target.arch.wordOf (pointer.toNat - addr.toNat)).toNat) :
    target.Reads pos (target.readPointer encoding bases)
      (bytesOfWord target.arch.endian size (target.arch.wordOf (pointer.toNat - addr.toNat)))
      pointer := by
  obtain ⟨stored, hstored, hreads⟩ :=
    @reads_readStored target pos encoding format size hformat hsize _ (target.arch.wordOf_lt _)
      htells
  have hvalue : stored ≠ 0 := by
    rintro rfl
    apply hzero
    apply UInt64.toNat_inj.mp
    rw [← hstored]
    exact Nat.zero_mod _
  rw [readPointer_eq hformat hbase haddr]
  refine .get_bind (hreads.bind_pure ?_)
  rw [pointerOfStored_of_addressOf hbase hdirect haddr hvalue,
    target.arch.add_displacement hpointer hstored]
  rfl

end Displacement

/-! ## No pointer is more than a word -/

theorem readAlignedWord_le (pos : UInt64) :
    Action.Ensures target.readAlignedWord pos fun value _ => value ≤ target.arch.wordMask := by
  refine .bind .get ?_
  rintro _ _ ⟨rfl, rfl⟩
  refine .bind .ofExcept ?_
  rintro above _ ⟨-, rfl⟩
  refine .bind .set ?_
  rintro _ _ rfl
  exact readTargetWord_le _

theorem pointerOfStored_le {encoding : PointerEncoding} {bases : PointerBases}
    {fieldAddr value pointer : UInt64}
    (h : target.pointerOfStored encoding bases fieldAddr value = .ok pointer) :
    pointer ≤ target.arch.wordMask := by
  unfold pointerOfStored at h
  split at h
  · cases h
    exact UInt64.zero_le
  · obtain ⟨base, -, h⟩ := bind_eq_ok_iff.mp h
    obtain ⟨sum, -, h⟩ := bind_eq_ok_iff.mp h
    split at h
    · obtain ⟨next, hrun⟩ := Action.answer_eq_ok h
      exact readTargetWord_le _ _ _ hrun
    · cases h
      exact Arch.and_wordMask_le _ _

theorem readPointer_le (encoding : PointerEncoding) (bases : PointerBases) (pos : UInt64) :
    Action.Ensures (target.readPointer encoding bases) pos fun pointer _ =>
      pointer ≤ target.arch.wordMask := by
  have hstored (format : ValueFormat) (next : UInt64) :
      Action.Ensures (target.readStored format) next fun _ _ => True := fun _ _ _ => trivial
  unfold readPointer
  refine .ite (fun _ => .pure UInt64.zero_le) fun _ => ?_
  refine .ite (fun _ => readAlignedWord_le pos) fun _ => ?_
  refine .bind .get ?_
  rintro _ _ ⟨rfl, rfl⟩
  refine .bind .ofExcept ?_
  rintro format _ ⟨-, rfl⟩
  refine (hstored format _).bind fun value next _ => ?_
  refine Action.Ensures.ofExcept.mono ?_
  rintro pointer _ ⟨hpointer, -⟩
  exact pointerOfStored_le hpointer

/-- Where the bytes stand that tell the displacement of a pointer from what the
encoding names, the pointer is read and nothing behind them.  Pointers of every
encoding, indirect, aligned and of no fixed size too, are words of the target. -/
theorem readPointer_displacement (target : Target) (bases : PointerBases) :
    (∀ (encoding : PointerEncoding) (format : ValueFormat) (base : PointerBase) (size : Nat)
        (pos addr pointer : UInt64),
      let displacement := target.arch.wordOf (pointer.toNat - addr.toNat)
      encoding.format = .ok format →
      encoding.size target.arch.addressSize = .ok (some size) →
      encoding.base = .ok base →
      encoding.isIndirect = false →
      bases.addressOf pos base = some addr →
      pointer ≤ target.arch.wordMask →
      displacement ≠ 0 →
      format.Tells size target.arch.wordBits displacement.toNat →
      target.Holds pos (bytesOfWord target.arch.endian size displacement) →
      pos.toNat + size < 2 ^ 64 →
        target.readPointer encoding bases pos = .ok pointer (pos + UInt64.ofNat size)) ∧
    ∀ encoding pos pointer next,
      target.readPointer encoding bases pos = .ok pointer next →
        pointer ≤ target.arch.wordMask := by
  refine ⟨?_, fun encoding pos => readPointer_le encoding bases pos⟩
  intro encoding format base size pos addr pointer displacement hformat hsize hbase hdirect haddr
    hpointer hzero htells hholds hroom
  have hreads := reads_displacement hformat hsize hbase hdirect haddr hpointer hzero htells hholds
  rw [length_bytesOfWord] at hreads
  exact hreads hroom

/-- The high byte comes first, and every word is the same. -/
def repeatingTarget : Target where
  arch := { Arch.x86 with endian := .big }
  loadWord _ := .ok 0xfff0fff0
  loadReg reg := .error (.badRegister (UInt64.ofNat reg))
  loadFpReg reg := .error (.badRegister (UInt64.ofNat reg))

/-- Two signed bytes lead sixteen bytes back from where they stand. -/
theorem readPointer_displacement_back :
    let displacement :=
      repeatingTarget.arch.wordOf ((0xff0 : UInt64).toNat - (0x1000 : UInt64).toNat)
    let bytes := bytesOfWord repeatingTarget.arch.endian 2 displacement
    repeatingTarget.Holds 0x1000 bytes ∧
      repeatingTarget.readPointer ⟨0x1a⟩ {} 0x1000 = .ok 0xff0 0x1002 ∧
      (0xff0 : UInt64) ≤ repeatingTarget.arch.wordMask := by
  intro displacement bytes
  have hbytes : bytes = [0xff, 0xf0] := by decide +kernel
  have hholds : repeatingTarget.Holds 0x1000 bytes := by
    rw [hbytes]
    simp only [Holds]
    decide +kernel
  have hread : repeatingTarget.readPointer ⟨0x1a⟩ {} 0x1000 = .ok 0xff0 0x1002 :=
    (readPointer_displacement repeatingTarget {}).1 ⟨0x1a⟩ .sdata2 .field 2 0x1000 0x1000 0xff0
      rfl rfl rfl rfl rfl (by decide +kernel) (by decide +kernel) (by decide +kernel) hholds
      (by decide)
  exact ⟨hholds, hread, (readPointer_displacement repeatingTarget {}).2 ⟨0x1a⟩ _ _ _ hread⟩

end Target
end StackWalk
