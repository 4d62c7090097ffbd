import Mathlib.Tactic
import StackWalk.Pointer
import StackWalk.Proofs.Action
import StackWalk.Proofs.Leb128
import StackWalk.Proofs.Word

/-!
# What a reading depends on

A reading that succeeds moves its position past the bytes it has looked at.  If
it has not gone past the end of a range, then another memory with the same
bytes in the range is read as the same.  This is shown for each way to read,
and holds of what is put together from them.
-/

namespace StackWalk

variable {first second : Target} {stop pos : UInt64} {α β : Type}

/-- The same bytes stand from `lo` on, up to `hi`. -/
def Target.AgreeOn (first second : Target) (lo hi : UInt64) : Prop :=
  ∀ addr, lo ≤ addr → addr < hi → first.readByte addr = second.readByte addr

namespace Target.AgreeOn

variable {lo hi : UInt64}

theorem mono {low : UInt64} (h : first.AgreeOn second lo hi) (hlow : lo ≤ low) :
    first.AgreeOn second low hi :=
  fun addr hlo hhi => h addr (UInt64.le_trans hlow hlo) hhi

theorem mono_stop {high : UInt64} (h : first.AgreeOn second lo hi) (hhigh : high ≤ hi) :
    first.AgreeOn second lo high :=
  fun addr hlo hlt => h addr hlo (UInt64.lt_of_lt_of_le hlt hhigh)

theorem symm (h : first.AgreeOn second lo hi) : second.AgreeOn first lo hi :=
  fun addr hlo hhi => (h addr hlo hhi).symm

end Target.AgreeOn

/-! ## Scans of two memories -/

/-- Of memories that agree from `pos` up to `stop`, the one scan reads as the
other does, unless that goes past `stop`. -/
def EchoesAt (first second : Target) (stop pos : UInt64) (scan echo : Scan α) : Prop :=
  first.AgreeOn second pos stop → ∀ a next, scan pos = .ok a next →
    pos ≤ next ∧ (next ≤ stop → echo pos = .ok a next)

namespace EchoesAt

theorem pure (a : α) : EchoesAt first second stop pos (Pure.pure a) (Pure.pure a) := by
  rintro - _ _ ⟨⟩
  exact ⟨UInt64.le_refl _, fun _ => rfl⟩

theorem lift (given : Except UnwindError α) :
    EchoesAt first second stop pos (liftM given) (liftM given) := by
  cases given with
  | ok a => exact pure a
  | error e => rintro - _ _ ⟨⟩

theorem throw (e : UnwindError) (echo : Scan α) :
    EchoesAt first second stop pos (MonadExcept.throw e) echo := by
  rintro - _ _ ⟨⟩

theorem bind {scan echo : Scan α} {f g : α → Scan β}
    (hscan : EchoesAt first second stop pos scan echo)
    (hf : ∀ a next, scan pos = .ok a next → EchoesAt first second stop next (f a) (g a)) :
    EchoesAt first second stop pos (scan >>= f) (echo >>= g) := by
  intro hagree b last hlast
  obtain ⟨a, next, ha, hb⟩ := Action.ok_of_bind hlast
  obtain ⟨hfirst, hecho⟩ := hscan hagree a next ha
  obtain ⟨hrest, hechoes⟩ := hf a next ha (hagree.mono hfirst) b last hb
  refine ⟨UInt64.le_trans hfirst hrest, fun hstop => ?_⟩
  rw [Action.bind_eq_of_ok (hecho (UInt64.le_trans hrest hstop))]
  exact hechoes hstop

theorem map {scan echo : Scan α} (view : α → β)
    (h : EchoesAt first second stop pos scan echo) :
    EchoesAt first second stop pos (view <$> scan) (view <$> echo) := by
  rw [map_eq_pure_bind, map_eq_pure_bind]
  exact bind h fun a _ _ => pure (view a)

theorem get_bind {f g : UInt64 → Scan α}
    (h : EchoesAt first second stop pos (f pos) (g pos)) :
    EchoesAt first second stop pos (get >>= f) (get >>= g) :=
  h

theorem lift_bind {given : Except UnwindError α} {f g : α → Scan β}
    (h : ∀ a, given = .ok a → EchoesAt first second stop pos (f a) (g a)) :
    EchoesAt first second stop pos (liftM given >>= f) (liftM given >>= g) := by
  cases given with
  | ok a => exact h a rfl
  | error e => rintro - _ _ ⟨⟩

end EchoesAt

/-! ## Readers -/

namespace Target

theorem readU8_echoes (first second : Target) (stop pos : UInt64) :
    EchoesAt first second stop pos first.readU8 second.readU8 := by
  intro hagree byte next hread
  obtain ⟨hnext, hbyte⟩ := readU8_eq_ok hread
  have hlt : pos < next := by
    rw [UInt64.lt_iff_toNat_lt]
    omega
  refine ⟨UInt64.le_of_lt hlt, fun hstop => ?_⟩
  have hsame := hagree pos (UInt64.le_refl _) (UInt64.lt_of_lt_of_le hlt hstop)
  unfold readU8 at hread ⊢
  rw [Action.get_bind_apply] at hread ⊢
  rw [← hsame]
  exact hread

theorem readBytes_congr {count : Nat} (hroom : pos.toNat + count < 2 ^ 64)
    (hagree : ∀ addr : UInt64, pos.toNat ≤ addr.toNat → addr.toNat < pos.toNat + count →
      first.readByte addr = second.readByte addr) :
    first.readBytes pos count = second.readBytes pos count := by
  induction count generalizing pos with
  | zero => rfl
  | succ count ih =>
      have hnext : (pos + 1).toNat = pos.toNat + 1 := by
        rw [UInt64.toNat_add]
        exact Nat.mod_eq_of_lt (show pos.toNat + 1 < 2 ^ 64 by omega)
      have hrest := @ih (pos + 1) (by omega) fun addr hlo hhi =>
        hagree addr (by omega) (by omega)
      rw [readBytes, readBytes, hagree pos le_rfl (by omega), hrest]

theorem readLeb128Bytes_echoes (first second : Target) (stop pos : UInt64) :
    EchoesAt first second stop pos first.readLeb128Bytes second.readLeb128Bytes := by
  intro hagree bytes last h
  fun_induction first.readLeb128Bytes pos generalizing bytes last with
  | case1 => cases h
  | case2 pos byte next hread hmore rest past hrest ih =>
      cases h
      obtain ⟨hbyte, hecho⟩ := readU8_echoes first second stop pos hagree byte next hread
      obtain ⟨hnext, hechoes⟩ := ih (hagree.mono hbyte) _ _ hrest
      refine ⟨UInt64.le_trans hbyte hnext, fun hstop => ?_⟩
      rw [readLeb128Bytes_eq, hecho (UInt64.le_trans hnext hstop)]
      simp only [hmore, hechoes hstop, if_true]
  | case3 => cases h
  | case4 pos byte next hread hlast =>
      cases h
      obtain ⟨hbyte, hecho⟩ := readU8_echoes first second stop pos hagree byte next hread
      refine ⟨hbyte, fun hstop => ?_⟩
      rw [readLeb128Bytes_eq, hecho hstop]
      simp only [hlast]
      rfl

theorem readULeb128_echoes (first second : Target) (stop pos : UInt64) :
    EchoesAt first second stop pos first.readULeb128 second.readULeb128 :=
  .bind (readLeb128Bytes_echoes first second stop pos) fun bytes _ _ =>
    .pure (Leb128.unsigned bytes)

theorem readSLeb128_echoes (first second : Target) (stop pos : UInt64) :
    EchoesAt first second stop pos first.readSLeb128 second.readSLeb128 :=
  .bind (readLeb128Bytes_echoes first second stop pos) fun bytes _ _ =>
    .pure (Leb128.signed bytes)

/-- The same processor, whose words have fewer bytes than there are addresses. -/
structure SameArch (first second : Target) : Prop where
  arch_eq : first.arch = second.arch
  size_lt : first.arch.addressSize < 2 ^ 64

theorem SameArch.symm (h : first.SameArch second) : second.SameArch first :=
  ⟨h.arch_eq.symm, h.arch_eq ▸ h.size_lt⟩

/-- The same kind of processor, whose words have at most eight bytes. -/
structure SameKind (first second : Target) : Prop where
  arch_eq : first.arch = second.arch
  size_le : first.arch.addressSize ≤ 8

theorem SameKind.symm (h : first.SameKind second) : second.SameKind first :=
  ⟨h.arch_eq.symm, h.arch_eq ▸ h.size_le⟩

theorem SameKind.sameArch (h : first.SameKind second) : first.SameArch second :=
  ⟨h.arch_eq, Nat.lt_of_le_of_lt h.size_le (by decide)⟩

/-- An indirect pointer that is stored at `fieldAddr`, and not past `stop`, is
the same in both. -/
def AgreeBehind (first second : Target) (encoding : PointerEncoding) (bases : PointerBases)
    (stop fieldAddr : UInt64) : Prop :=
  ∀ format value next base pointer, encoding.format = .ok format →
    first.readStored format fieldAddr = .ok value next → next ≤ stop → value ≠ 0 →
    encoding.base = .ok base → relativeTo bases fieldAddr value base = .ok pointer →
    encoding.isIndirect = true →
    first.dereference (pointer &&& first.arch.wordMask) =
      second.dereference (pointer &&& first.arch.wordMask)

variable (harch : first.SameArch second)

include harch

theorem readUInt_echoes {size : Nat} (hsize : size < 2 ^ 64) (stop pos : UInt64) :
    EchoesAt first second stop pos (first.readUInt size) (second.readUInt size) := by
  intro hagree value next hread
  have hnext := first.readUInt_ensures size pos value next hread
  rw [UInt64.toNat_ofNat_of_lt' hsize] at hnext
  have hbound := next.toNat_lt
  refine ⟨by rw [UInt64.le_iff_toNat_le]; omega, fun hstop => ?_⟩
  rw [UInt64.le_iff_toNat_le] at hstop
  have hbytes : first.readBytes pos size = second.readBytes pos size := by
    refine readBytes_congr (by omega) fun addr hlo hhi => hagree addr ?_ ?_
    · rwa [UInt64.le_iff_toNat_le]
    · rw [UInt64.lt_iff_toNat_lt]
      omega
  unfold readUInt at hread ⊢
  rw [Action.get_bind_apply] at hread ⊢
  rw [← harch.arch_eq, ← hbytes]
  exact hread

theorem readTargetWord_echoes (stop pos : UInt64) :
    EchoesAt first second stop pos first.readTargetWord second.readTargetWord := by
  unfold readTargetWord
  rw [← harch.arch_eq]
  exact readUInt_echoes harch harch.size_lt stop pos

theorem readStored_echoes (format : ValueFormat) (stop pos : UInt64) :
    EchoesAt first second stop pos (first.readStored format) (second.readStored format) := by
  cases format with
  | absptr => exact readTargetWord_echoes harch stop pos
  | uleb128 => exact readULeb128_echoes first second stop pos
  | sleb128 => exact .map _ (readSLeb128_echoes first second stop pos)
  | udata2 | udata4 | udata8 | sdata8 => exact readUInt_echoes harch (by decide) stop pos
  | sdata2 | sdata4 => exact .map _ (readUInt_echoes harch (by decide) stop pos)

theorem readAlignedWord_echoes (stop pos : UInt64) :
    EchoesAt first second stop pos first.readAlignedWord second.readAlignedWord := by
  intro hagree value next hread
  have hafter := first.readAlignedWord_ensures pos value next hread
  unfold readAlignedWord at hread ⊢
  rw [Action.get_bind_apply] at hread ⊢
  rw [← harch.arch_eq]
  cases hadvance : advance pos (first.arch.wordSize - 1) with
  | error e =>
      rw [hadvance] at hread
      cases hread
  | ok above =>
      rw [hadvance] at hread
      have hword : first.readTargetWord (alignDown above first.arch.wordSize) = .ok value next :=
        hread
      have hnext := first.readUInt_ensures _ _ value next hword
      have hsize : (UInt64.ofNat first.arch.addressSize).toNat = first.arch.wordSize.toNat := rfl
      have hahead : pos ≤ alignDown above first.arch.wordSize := by
        rw [UInt64.le_iff_toNat_le]
        omega
      obtain ⟨hle, hecho⟩ :=
        readTargetWord_echoes harch stop _ (hagree.mono hahead) value next hword
      exact ⟨UInt64.le_trans hahead hle, hecho⟩

theorem AgreeBehind.symm {encoding : PointerEncoding} {bases : PointerBases}
    (hagree : first.AgreeOn second pos stop)
    (h : first.AgreeBehind second encoding bases stop pos) :
    second.AgreeBehind first encoding bases stop pos := by
  intro format value next base pointer hformat hvalue hnext hzero hbase hpointer hindirect
  have hecho := (readStored_echoes harch.symm format stop pos hagree.symm value next hvalue).2 hnext
  rw [← harch.arch_eq]
  exact (h format value next base pointer hformat hecho hnext hzero hbase hpointer hindirect).symm

theorem readPointer_echoes {encoding : PointerEncoding} {bases : PointerBases} {stop pos : UInt64}
    (hbehind : first.AgreeBehind second encoding bases stop pos) :
    EchoesAt first second stop pos (first.readPointer encoding bases)
      (second.readPointer encoding bases) := by
  unfold readPointer
  split
  · exact .pure 0
  · split
    · exact readAlignedWord_echoes harch stop pos
    · refine .get_bind (.lift_bind fun format hformat => ?_)
      intro hagree pointer next hread
      obtain ⟨value, past, hvalue, hpointer⟩ := Action.ok_of_bind hread
      obtain ⟨hle, hecho⟩ := readStored_echoes harch format stop pos hagree value past hvalue
      obtain rfl : past = next := by
        cases hgiven : first.pointerOfStored encoding bases pos value <;>
          rw [hgiven] at hpointer <;> cases hpointer
        rfl
      refine ⟨hle, fun hstop => ?_⟩
      have hsame : first.pointerOfStored encoding bases pos value =
          second.pointerOfStored encoding bases pos value := by
        unfold pointerOfStored
        rw [← harch.arch_eq]
        split
        · rfl
        · rename_i hzero
          refine bind_congr_of_ok fun base hbase => bind_congr_of_ok fun pointer hpointer => ?_
          split
          · exact hbehind format value past base pointer hformat hvalue hstop hzero hbase hpointer
              ‹_›
          · rfl
      rw [Action.bind_eq_of_ok (hecho hstop), ← hsame]
      exact hpointer

end Target
end StackWalk
