import Mathlib.Tactic
import StackWalk.Arch

/-!
# Words of the target

A target with words of less than 64 bits keeps its addresses in the low bits.
Masking a word is taking it modulo the width, and an address at an offset is
the sum of both modulo the width, whatever the sign of the offset.
-/

namespace StackWalk

theorem checkedAdd_of_lt {a b : UInt64} (h : a.toNat + b.toNat < 2 ^ 64) :
    checkedAdd a b = some (a + b) :=
  if_pos h

theorem checkedAdd_of_not_lt {a b : UInt64} (h : ¬a.toNat + b.toNat < 2 ^ 64) :
    checkedAdd a b = none :=
  if_neg h

theorem checkedMul_of_lt {a b : UInt64} (h : a.toNat * b.toNat < 2 ^ 64) :
    checkedMul a b = some (a * b) :=
  if_pos h

theorem checkedMul_of_not_lt {a b : UInt64} (h : ¬a.toNat * b.toNat < 2 ^ 64) :
    checkedMul a b = none :=
  if_neg h

/-- A product and then a sum are found to fit, or not, as if they had no bound. -/
theorem checkedMul_bind_checkedAdd (base count size : UInt64) :
    (checkedMul count size).bind (checkedAdd base) =
      if base.toNat + count.toNat * size.toNat < 2 ^ 64 then some (base + count * size)
      else none := by
  by_cases hmul : count.toNat * size.toNat < 2 ^ 64
  · have hproduct : (count * size).toNat = count.toNat * size.toNat := by
      rw [UInt64.toNat_mul, Nat.mod_eq_of_lt hmul]
    rw [checkedMul_of_lt hmul, Option.bind_some, checkedAdd, hproduct]
    rfl
  · have hsum : ¬base.toNat + count.toNat * size.toNat < 2 ^ 64 := by omega
    rw [checkedMul_of_not_lt hmul, if_neg hsum, Option.bind_none]

/-- The difference, unless it is below zero. -/
def checkedSub (a b : UInt64) : Option UInt64 :=
  if b ≤ a then
    some (a - b)
  else
    none

theorem exists_checkedAdd {a b : UInt64} (h : a.toNat + b.toNat < 2 ^ 64) :
    ∃ sum, checkedAdd a b = some sum ∧ sum.toNat = a.toNat + b.toNat :=
  ⟨a + b, checkedAdd_of_lt h, by rw [UInt64.toNat_add, Nat.mod_eq_of_lt h]⟩

theorem exists_checkedAdd_one {a bound : UInt64} (h : a.toNat < bound.toNat) :
    ∃ next, checkedAdd a 1 = some next ∧ next.toNat = a.toNat + 1 :=
  exists_checkedAdd (Nat.lt_of_le_of_lt h bound.toNat_lt)

theorem exists_checkedSub {a b : UInt64} (h : b.toNat ≤ a.toNat) :
    ∃ difference, checkedSub a b = some difference ∧ difference.toNat = a.toNat - b.toNat := by
  have hle : b ≤ a := UInt64.le_iff_toNat_le.mpr h
  exact ⟨a - b, if_pos hle, UInt64.toNat_sub_of_le a b hle⟩

theorem addOffset_toInt64 (base word : UInt64) : addOffset base word.toInt64 = base + word := by
  simp [addOffset]

theorem addOffset_neg_toInt64 (base word : UInt64) :
    addOffset base (-word.toInt64) = base - word := by
  simp [addOffset, UInt64.sub_eq_add_neg]

theorem toInt_emod (offset : Int64) :
    offset.toInt % 2 ^ 64 = (offset.toUInt64.toNat : Int) := by
  have hsigned : offset.toInt = Int.bmod offset.toUInt64.toNat (2 ^ 64) :=
    BitVec.toInt_eq_toNat_bmod offset.toBitVec
  have hlt := offset.toUInt64.toNat_lt
  rw [hsigned, show (2 ^ 64 : Int) = ((2 ^ 64 : Nat) : Int) by norm_num, Int.bmod_emod]
  exact Int.emod_eq_of_lt (by omega) (by omega)

/-- A number read from its low bits with the highest of them as the sign. -/
theorem toInt_signExtend {bits : Nat} (h : bits ≤ 64) (word : UInt64) :
    (signExtend bits word).toInt64.toInt = Int.bmod word.toNat (2 ^ bits) := by
  change ((word.toBitVec.setWidth bits).signExtend 64).toInt = _
  rw [BitVec.toInt_signExtend_of_le h, BitVec.toInt_setWidth]
  rfl

theorem toNat_signExtend_mod {bits width : Nat} (hbits : bits ≤ 64) (hwidth : width ≤ 64)
    (word : UInt64) :
    ((signExtend bits word).toNat : Int) % 2 ^ width =
      Int.bmod word.toNat (2 ^ bits) % 2 ^ width := by
  have hword : (signExtend bits word).toInt64.toInt % 2 ^ 64 = (signExtend bits word).toNat :=
    toInt_emod (signExtend bits word).toInt64
  rw [← toInt_signExtend hbits, ← hword, Int.emod_emod_of_dvd _ (pow_dvd_pow 2 hwidth)]

namespace Arch

theorem wordBits_le (arch : Arch) : arch.wordBits ≤ 64 := by
  unfold wordBits
  omega

theorem pow_wordBits_le (arch : Arch) : 2 ^ arch.wordBits ≤ 256 ^ arch.addressSize := by
  have hpow : 256 ^ arch.addressSize = 2 ^ (8 * arch.addressSize) := by
    rw [Nat.pow_mul]
  rw [hpow]
  apply Nat.pow_le_pow_right (by decide)
  unfold wordBits
  omega

theorem toNat_wordMask (arch : Arch) : arch.wordMask.toNat = 2 ^ arch.wordBits - 1 := by
  have hpow : 2 ^ arch.wordBits ≤ 2 ^ 64 := Nat.pow_le_pow_right (by decide) arch.wordBits_le
  rw [wordMask, Nat.one_shiftLeft]
  exact UInt64.toNat_ofNat_of_lt' (show 2 ^ arch.wordBits - 1 < 2 ^ 64 by omega)

theorem toNat_and_wordMask (arch : Arch) (word : UInt64) :
    (word &&& arch.wordMask).toNat = word.toNat % 2 ^ arch.wordBits := by
  rw [UInt64.toNat_and, toNat_wordMask, Nat.and_two_pow_sub_one_eq_mod]

theorem and_wordMask {arch : Arch} {word : UInt64} (h : word.toNat ≤ arch.wordMask.toNat) :
    word &&& arch.wordMask = word := by
  have hpos : 0 < 2 ^ arch.wordBits := Nat.two_pow_pos _
  apply UInt64.toNat_inj.mp
  rw [toNat_wordMask] at h
  rw [toNat_and_wordMask]
  exact Nat.mod_eq_of_lt (by omega)

theorem and_wordMask_le (arch : Arch) (word : UInt64) : word &&& arch.wordMask ≤ arch.wordMask := by
  rw [UInt64.le_iff_toNat_le, UInt64.toNat_and]
  exact Nat.and_le_right

/-- A number as a word of the target, modulo its width. -/
def wordOf (arch : Arch) (n : Int) : UInt64 :=
  UInt64.ofNat (n % 2 ^ arch.wordBits).toNat

theorem toNat_wordOf (arch : Arch) (n : Int) :
    ((arch.wordOf n).toNat : Int) = n % 2 ^ arch.wordBits := by
  have hpow : (2 : Int) ^ arch.wordBits ≤ 2 ^ 64 := pow_le_pow_right₀ (by decide) arch.wordBits_le
  have hnonneg := Int.emod_nonneg n (pow_ne_zero arch.wordBits (by decide : (2 : Int) ≠ 0))
  have hlt := Int.emod_lt_of_pos n (pow_pos (by decide : (0 : Int) < 2) arch.wordBits)
  rw [wordOf, UInt64.toNat_ofNat_of_lt' (show _ < 2 ^ 64 by omega), Int.toNat_of_nonneg hnonneg]

theorem wordOf_lt (arch : Arch) (n : Int) : (arch.wordOf n).toNat < 2 ^ arch.wordBits := by
  have hlt := Int.emod_lt_of_pos n (pow_pos (by decide : (0 : Int) < 2) arch.wordBits)
  zify
  rwa [toNat_wordOf]

theorem addOffset_and_wordMask (arch : Arch) (base : UInt64) (offset : Int64) :
    addOffset base offset &&& arch.wordMask = arch.wordOf (base.toNat + offset.toInt) := by
  have hdvd : (2 : Int) ^ arch.wordBits ∣ 2 ^ 64 := pow_dvd_pow 2 arch.wordBits_le
  apply UInt64.toNat_inj.mp
  zify
  rw [toNat_wordOf, toNat_and_wordMask, addOffset, UInt64.toNat_add]
  push_cast [← toInt_emod]
  rw [Int.add_emod_emod]
  exact Int.emod_emod_of_dvd _ hdvd

/-- Masking the base first makes no difference. -/
theorem addOffset_masked (arch : Arch) (base : UInt64) (offset : Int64) :
    addOffset (base &&& arch.wordMask) offset &&& arch.wordMask =
      addOffset base offset &&& arch.wordMask := by
  rw [addOffset_and_wordMask, addOffset_and_wordMask, toNat_and_wordMask]
  unfold wordOf
  push_cast
  rw [Int.emod_add_emod]

/-- A displacement added to where it was taken from. -/
theorem add_displacement (arch : Arch) {base stored pointer : UInt64}
    (hpointer : pointer ≤ arch.wordMask)
    (hstored : stored.toNat % 2 ^ arch.wordBits =
      (arch.wordOf (pointer.toNat - base.toNat)).toNat) :
    (stored + base) &&& arch.wordMask = pointer := by
  have hmod : (stored.toNat + base.toNat) % 2 ^ arch.wordBits =
      pointer.toNat % 2 ^ arch.wordBits := by
    zify at hstored ⊢
    rw [toNat_wordOf] at hstored
    rw [← Int.emod_add_emod, hstored, Int.emod_add_emod, sub_add_cancel]
  have hmasked : (stored + base) &&& arch.wordMask = pointer &&& arch.wordMask := by
    apply UInt64.toNat_inj.mp
    rw [toNat_and_wordMask, toNat_and_wordMask, UInt64.toNat_add,
      Nat.mod_mod_of_dvd _ (pow_dvd_pow 2 arch.wordBits_le), hmod]
  rw [hmasked, and_wordMask (UInt64.le_iff_toNat_le.mp hpointer)]

end Arch
end StackWalk
