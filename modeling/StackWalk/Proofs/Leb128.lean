import Mathlib.Data.Nat.Bitwise
import StackWalk.Arch.Shipped
import StackWalk.Leb128
import StackWalk.Proofs.Scan

/-!
# What LEB128 numbers mean

Groups gathered bit by bit add up: what is gathered is the sum of the groups,
each times the power of 128 of its place, modulo `2 ^ 64`, and setting the bits
above it subtracts the power behind the last group.  Encoding ends a number
with the first byte that no other follows, so reading stops there, and the
groups it has read add up to the number.
-/

namespace StackWalk

variable {target : Target} {pos : UInt64}

namespace Leb128

/-! ## The sum of the groups -/

theorem toNat_group (byte : UInt8) : (group byte).toNat = byte.toNat % 128 := by
  have hseven : (0x7f : UInt8).toNat = 2 ^ 7 - 1 := rfl
  rw [group, UInt8.toNat_toUInt64, UInt8.toNat_and, hseven, Nat.and_two_pow_sub_one_eq_mod]

/-- The sum of the groups, each times the power of 128 of its place. -/
def groupSum (bytes : List UInt8) : Nat :=
  ∑ i : Fin bytes.length, bytes[i].toNat % 128 * 128 ^ (i : Nat)

theorem groupSum_cons (byte : UInt8) (rest : List UInt8) :
    groupSum (byte :: rest) = byte.toNat % 128 + 128 * groupSum rest := by
  unfold groupSum
  rw [Finset.mul_sum]
  change ∑ i : Fin (rest.length + 1), _ = _
  rw [Fin.sum_univ_succ]
  congr 1
  · simp
  · apply Finset.sum_congr rfl
    intro i _
    simp only [Fin.getElem_fin, Fin.val_succ, List.getElem_cons_succ, pow_succ]
    ring

/-- What is shifted past the bits of a word shares none with it. -/
theorem toNat_or_shiftLeft {low : UInt64} (high : UInt64) {bits : UInt32} (hbits : bits < 64)
    (hlow : low.toNat < 2 ^ bits.toNat) :
    (low ||| (high <<< bits.toUInt64)).toNat =
      (low.toNat + 2 ^ bits.toNat * high.toNat) % 2 ^ 64 := by
  have hless : bits.toNat < 64 := UInt32.lt_iff_toNat_lt.mp hbits
  have hcount : bits.toUInt64.toNat % 64 = bits.toNat := by
    rw [UInt32.toNat_toUInt64]
    exact Nat.mod_eq_of_lt hless
  have hpow : 2 ^ 64 = 2 ^ bits.toNat * 2 ^ (64 - bits.toNat) := by
    rw [← Nat.pow_add, Nat.add_sub_cancel' (by omega)]
  have hhigh : (high <<< bits.toUInt64).toNat =
      2 ^ bits.toNat * (high.toNat % 2 ^ (64 - bits.toNat)) := by
    rw [UInt64.toNat_shiftLeft, hcount, Nat.shiftLeft_eq, Nat.mul_comm, hpow,
      Nat.mul_mod_mul_left]
  have hsum : (low ||| (high <<< bits.toUInt64)).toNat =
      low.toNat + 2 ^ bits.toNat * high.toNat % 2 ^ 64 := by
    rw [UInt64.toNat_or, hhigh, Nat.or_comm, ← Nat.two_pow_add_eq_or_of_lt hlow, Nat.add_comm,
      hpow, Nat.mul_mod_mul_left]
  have hlt := (low ||| (high <<< bits.toUInt64)).toNat_lt
  rw [hsum] at hlt ⊢
  rw [Nat.add_mod, Nat.mod_eq_of_lt low.toNat_lt, Nat.mod_eq_of_lt hlt]

theorem toNat_add_seven {bits : UInt32} (h : bits.toNat + 7 < 2 ^ 32) :
    (bits + 7).toNat = bits.toNat + 7 := by
  rw [UInt32.toNat_add]
  exact Nat.mod_eq_of_lt h

namespace Gathered

/-- No bit of the value lies above those that were read. -/
def Fits (gathered : Gathered) : Prop :=
  gathered.value.toNat < 2 ^ gathered.bits.toNat

variable {gathered : Gathered}

theorem toNat_add (h : gathered.Fits) (byte : UInt8) :
    (gathered.add byte).value.toNat =
      (gathered.value.toNat + 2 ^ gathered.bits.toNat * (byte.toNat % 128)) % 2 ^ 64 := by
  unfold add
  dsimp only
  split
  · rename_i hroom
    rw [toNat_or_shiftLeft _ hroom h, toNat_group]
  · rename_i hfull
    have hle : 64 ≤ gathered.bits.toNat := UInt32.le_iff_toNat_le.mp (UInt32.not_lt.mp hfull)
    obtain ⟨k, hk⟩ : 2 ^ 64 ∣ 2 ^ gathered.bits.toNat := Nat.pow_dvd_pow 2 hle
    rw [hk, Nat.mul_assoc, Nat.add_mul_mod_self_left, Nat.mod_eq_of_lt gathered.value.toNat_lt]

theorem toNat_bits_add (hcount : gathered.bits.toNat + 7 < 2 ^ 32) (byte : UInt8) :
    (gathered.add byte).bits.toNat = gathered.bits.toNat + 7 :=
  toNat_add_seven hcount

theorem Fits.add (h : gathered.Fits) (hcount : gathered.bits.toNat + 7 < 2 ^ 32) (byte : UInt8) :
    (gathered.add byte).Fits := by
  have hgroup := Nat.mod_lt byte.toNat (show 128 > 0 by decide)
  have hpow : 2 ^ (gathered.bits.toNat + 7) = 2 ^ gathered.bits.toNat * 128 := Nat.pow_add 2 _ 7
  have hplace : 2 ^ gathered.bits.toNat * (byte.toNat % 128) + 2 ^ gathered.bits.toNat ≤
      2 ^ gathered.bits.toNat * 128 := by
    rw [← Nat.mul_succ]
    exact Nat.mul_le_mul_left _ hgroup
  unfold Fits at h ⊢
  rw [toNat_add h, toNat_bits_add hcount]
  exact lt_of_le_of_lt (Nat.mod_le _ _) (by omega)

/-- As long as the bits can be counted, what is gathered is a sum whose bits lie
below the count. -/
theorem Fits.foldl_add (h : gathered.Fits) {bytes : List UInt8}
    (hcount : gathered.bits.toNat + 7 * bytes.length < 2 ^ 32) :
    (bytes.foldl Gathered.add gathered).Fits ∧
      (bytes.foldl Gathered.add gathered).bits.toNat =
        gathered.bits.toNat + 7 * bytes.length ∧
      (bytes.foldl Gathered.add gathered).value.toNat =
        (gathered.value.toNat + 2 ^ gathered.bits.toNat * groupSum bytes) % 2 ^ 64 := by
  induction bytes generalizing gathered with
  | nil => exact ⟨h, rfl, by simp [groupSum, Nat.mod_eq_of_lt gathered.value.toNat_lt]⟩
  | cons byte rest ih =>
      rw [List.length_cons] at hcount
      have hseven : gathered.bits.toNat + 7 < 2 ^ 32 := by omega
      have hbits := toNat_bits_add hseven byte
      obtain ⟨hfits, hcounted, hsum⟩ := ih (h.add hseven byte) (by omega)
      refine ⟨hfits, ?_, ?_⟩
      · rw [List.foldl_cons, hcounted, hbits, List.length_cons]
        omega
      · rw [List.foldl_cons, hsum, toNat_add h, Nat.mod_add_mod, groupSum_cons, hbits]
        congr 1
        ring

end Gathered

/-- The bits of the bytes can be counted in 32 bits. -/
def Counted (bytes : List UInt8) : Prop :=
  7 * bytes.length < 2 ^ 32

theorem Counted.tail {byte : UInt8} {rest : List UInt8} (h : Counted (byte :: rest)) :
    Counted rest := by
  unfold Counted at h ⊢
  rw [List.length_cons] at h
  omega

section

variable {bytes : List UInt8} (hcounted : Counted bytes)

include hcounted

theorem gather_eq :
    (gather bytes).Fits ∧ (gather bytes).bits.toNat = 7 * bytes.length ∧
      (gather bytes).value.toNat = groupSum bytes % 2 ^ 64 := by
  have hstart : Gathered.Fits ⟨0, 0⟩ := by simp [Gathered.Fits]
  have hcount : (0 : UInt32).toNat + 7 * bytes.length < 2 ^ 32 := by
    rwa [UInt32.toNat_zero, Nat.zero_add]
  simpa [gather] using hstart.foldl_add hcount

theorem unsigned_eq : unsigned bytes = UInt64.ofNat (groupSum bytes) := by
  apply UInt64.toNat_inj.mp
  rw [unsigned, (gather_eq hcounted).2.2, UInt64.toNat_ofNat']

end

/-- What is subtracted for the sign has no bit in a word once 64 bits are read. -/
theorem ofNat_pow_eq_zero {n : Nat} (h : 64 ≤ 7 * n) : UInt64.ofNat (128 ^ n) = 0 := by
  have hpow : 128 ^ n = 2 ^ (7 * n) := by rw [Nat.pow_mul]
  apply UInt64.toNat_inj.mp
  rw [hpow, UInt64.toNat_ofNat', UInt64.toNat_zero]
  exact Nat.mod_eq_zero_of_dvd (Nat.pow_dvd_pow 2 h)

/-- Setting the bits above those read is subtracting their power. -/
theorem or_ones {low : UInt64} {bits : UInt32} (hbits : bits < 64)
    (hlow : low.toNat < 2 ^ bits.toNat) :
    low ||| (maxWord <<< bits.toUInt64) = low - UInt64.ofNat (2 ^ bits.toNat) := by
  have hless : bits.toNat < 64 := UInt32.lt_iff_toNat_lt.mp hbits
  have hpow : 2 ^ bits.toNat < 2 ^ 64 := Nat.pow_lt_pow_right (by decide) hless
  have hpos : 0 < 2 ^ bits.toNat := Nat.two_pow_pos bits.toNat
  have hones : maxWord.toNat = 2 ^ 64 - 1 := rfl
  apply UInt64.toNat_inj.mp
  rw [toNat_or_shiftLeft _ hbits hlow, UInt64.toNat_sub, UInt64.toNat_ofNat_of_lt' hpow, hones]
  have hmul : 2 ^ bits.toNat * (2 ^ 64 - 1) =
      2 ^ 64 * (2 ^ bits.toNat - 1) + (2 ^ 64 - 2 ^ bits.toNat) := by
    rw [Nat.mul_sub, Nat.mul_sub, Nat.mul_comm (2 ^ bits.toNat)]
    omega
  rw [hmul, Nat.add_left_comm, Nat.mul_add_mod_self_left, Nat.add_comm]

theorem signedWord_eq {bytes : List UInt8} (hcounted : Counted bytes) :
    signedWord bytes =
      unsigned bytes - if isNegative bytes then UInt64.ofNat (128 ^ bytes.length) else 0 := by
  obtain ⟨hfits, hbits, -⟩ := gather_eq hcounted
  have hpow : 128 ^ bytes.length = 2 ^ (gather bytes).bits.toNat := by rw [hbits, Nat.pow_mul]
  unfold signedWord
  dsimp only
  by_cases hnegative : isNegative bytes
  · by_cases hroom : (gather bytes).bits < 64
    · rw [if_pos ⟨hroom, hnegative⟩, if_pos hnegative, or_ones hroom hfits, hpow]
      rfl
    · have hfull : 64 ≤ 7 * bytes.length := by
        rw [← hbits]
        exact UInt32.le_iff_toNat_le.mp (UInt32.not_lt.mp hroom)
      rw [if_neg fun h => hroom h.1, if_pos hnegative, ofNat_pow_eq_zero hfull, UInt64.sub_zero]
      rfl
  · rw [if_neg fun h => hnegative h.2, if_neg hnegative, UInt64.sub_zero]
    rfl

theorem signed_eq {bytes : List UInt8} (hcounted : Counted bytes) :
    signed bytes = Int64.ofInt
      (groupSum bytes - if isNegative bytes then 128 ^ bytes.length else 0) := by
  have hword : ∀ n : Nat, (UInt64.ofNat n).toBitVec = BitVec.ofInt 64 n := fun n => by
    rw [BitVec.ofInt_natCast]
    rfl
  apply Int64.toBitVec_inj.mp
  change (signedWord bytes).toBitVec = BitVec.ofInt 64 _
  rw [signedWord_eq hcounted, unsigned_eq hcounted, UInt64.toBitVec_sub, hword, Int.sub_eq_add_neg,
    BitVec.ofInt_add, BitVec.ofInt_neg, ← BitVec.sub_eq_add_neg]
  split
  · rw [hword]
    push_cast
    rfl
  · rfl

theorem isNegative_cons {byte : UInt8} {rest : List UInt8} (h : rest ≠ []) :
    isNegative (byte :: rest) = isNegative rest := by
  unfold isNegative
  rw [List.getLast?_cons_of_ne_nil h]

theorem unsigned_cons {byte : UInt8} {rest : List UInt8} (hcounted : Counted (byte :: rest)) :
    unsigned (byte :: rest) = group byte + 128 * unsigned rest := by
  have hgroup : UInt64.ofNat (byte.toNat % 128) = group byte := by
    rw [← toNat_group, UInt64.ofNat_toNat]
  rw [unsigned_eq hcounted, unsigned_eq hcounted.tail, groupSum_cons, UInt64.ofNat_add,
    UInt64.ofNat_mul, hgroup]
  rfl

theorem counted_singleton (byte : UInt8) : Counted [byte] :=
  show 7 < 2 ^ 32 by decide

theorem unsigned_singleton (byte : UInt8) : unsigned [byte] = group byte := by
  rw [unsigned_cons (counted_singleton byte)]
  exact UInt64.add_zero _

theorem signedWord_singleton (byte : UInt8) :
    signedWord [byte] = if byte &&& 0x40 = 0 then group byte else group byte - 128 := by
  rw [signedWord_eq (counted_singleton byte), unsigned_singleton]
  by_cases h : byte &&& 0x40 = 0
  · have hnegative : isNegative [byte] = false := by simp [isNegative, h]
    rw [hnegative, if_pos h]
    exact UInt64.sub_zero _
  · have hnegative : isNegative [byte] = true := by simp [isNegative, h]
    rw [hnegative, if_neg h]
    rfl

theorem signedWord_cons {byte : UInt8} {rest : List UInt8} (hcounted : Counted (byte :: rest))
    (h : rest ≠ []) :
    signedWord (byte :: rest) = group byte + 128 * signedWord rest := by
  have hpow : UInt64.ofNat (128 ^ (byte :: rest).length) =
      128 * UInt64.ofNat (128 ^ rest.length) := by
    rw [List.length_cons, Nat.pow_succ', UInt64.ofNat_mul]
    rfl
  rw [signedWord_eq hcounted, signedWord_eq hcounted.tail, unsigned_cons hcounted,
    isNegative_cons h, hpow]
  split
  · grind
  · simp

/-! ## Padding -/

/-- Groups without a bit are counted and leave the value as it is. -/
theorem foldl_add_replicate (gathered : Gathered) (n : Nat) :
    (List.replicate n 0x80).foldl Gathered.add gathered =
      ⟨gathered.value, gathered.bits + 7 * UInt32.ofNat n⟩ := by
  induction n generalizing gathered with
  | zero => simp
  | succ n ih =>
      have hgroup : group 0x80 = 0 := by decide
      have hvalue : (gathered.add 0x80).value = gathered.value := by
        unfold Gathered.add
        split
        · rw [hgroup, UInt64.zero_shiftLeft, UInt64.or_zero]
        · rfl
      have hbits : gathered.bits + 7 + 7 * UInt32.ofNat n =
          gathered.bits + 7 * UInt32.ofNat (n + 1) := by
        rw [UInt32.ofNat_add, UInt32.mul_add, UInt32.add_comm (7 * UInt32.ofNat n),
          UInt32.add_assoc]
        rfl
      rw [List.replicate_succ, List.foldl_cons, ih, hvalue, ← hbits]
      rfl

theorem unsigned_replicate (n : Nat) (last : UInt8) :
    unsigned (List.replicate n 0x80 ++ [last]) =
      (Gathered.add ⟨0, 7 * UInt32.ofNat n⟩ last).value := by
  rw [unsigned, gather, List.foldl_append, foldl_add_replicate, UInt32.zero_add]
  rfl

theorem groupSum_replicate (n : Nat) (last : UInt8) :
    groupSum (List.replicate n 0x80 ++ [last]) = 128 ^ n * (last.toNat % 128) := by
  induction n with
  | zero => simp [groupSum]
  | succ n ih =>
      have hgroup : (0x80 : UInt8).toNat % 128 = 0 := rfl
      rw [List.replicate_succ, List.cons_append, groupSum_cons, ih, hgroup, Nat.zero_add,
        Nat.pow_succ', Nat.mul_assoc]

/-! ## Encoded numbers -/

/-- The bytes of one number: all but the last are followed by another. -/
inductive Closed : List UInt8 → Prop where
  | last {byte : UInt8} (h : continues byte = false) : Closed [byte]
  | more {byte : UInt8} {rest : List UInt8} (h : continues byte = true) (hrest : Closed rest) :
      Closed (byte :: rest)

theorem continues_eq_testBit (byte : UInt8) : continues byte = byte.toNat.testBit 7 := by
  have hlt := byte.toNat_lt
  have hseven : (0x80 : UInt8).toNat = 128 := rfl
  rw [continues, Nat.testBit_eq_decide_div_mod_eq]
  apply decide_eq_decide.mpr
  rw [UInt8.le_iff_toNat_le, hseven]
  omega

theorem closed_append {more : List UInt8} {last : UInt8}
    (hmore : ∀ byte ∈ more, byte.toNat.testBit 7) (hlast : last.toNat.testBit 7 = false) :
    Closed (more ++ [last]) := by
  induction more with
  | nil => exact .last (by rw [continues_eq_testBit, hlast])
  | cons byte rest ih =>
      have hbyte : continues byte = true := by
        rw [continues_eq_testBit]
        exact hmore byte (by simp)
      exact .more hbyte (ih fun other hother => hmore other (by simp [hother]))

theorem isNegative_append (more : List UInt8) (last : UInt8) :
    isNegative (more ++ [last]) = last.toNat.testBit 6 := by
  have hsix : (0x40 : UInt8).toNat = 2 ^ 6 := rfl
  have hset : last &&& 0x40 ≠ 0 ↔ last.toNat.testBit 6 = true := by
    rw [ne_eq, ← UInt8.toNat_inj, UInt8.toNat_and, hsix, Nat.and_two_pow]
    cases last.toNat.testBit 6 <;> simp
  rw [Bool.eq_iff_iff, ← hset]
  simp [isNegative]

theorem continues_ofNat {n : Nat} (h : n < 256) : continues (UInt8.ofNat n) = decide (128 ≤ n) := by
  have hnat : (UInt8.ofNat n).toNat = n := UInt8.toNat_ofNat_of_lt' h
  simp only [continues, UInt8.le_iff_toNat_le, hnat]
  rfl

theorem group_ofNat {n : Nat} (h : n < 256) : group (UInt8.ofNat n) = UInt64.ofNat (n % 128) := by
  have hnat : (UInt8.ofNat n).toNat = n := UInt8.toNat_ofNat_of_lt' h
  have hlt : n % 128 < 2 ^ 64 := by omega
  apply UInt64.toNat_inj.mp
  rw [toNat_group, hnat, UInt64.toNat_ofNat_of_lt' hlt]

theorem closed_encodeNat (n : Nat) : Closed (encodeNat n) := by
  induction n using encodeNat.induct with
  | case1 n h =>
      rw [encodeNat, if_pos h]
      exact .last (by simp [continues_ofNat (show n < 256 by omega), h])
  | case2 n h ih =>
      rw [encodeNat, if_neg h]
      have hmore : continues (UInt8.ofNat (n % 128 + 128)) = true := by
        rw [continues_ofNat (by omega)]
        exact decide_eq_true (by omega)
      exact .more hmore ih

/-- A number below `128 ^ (k + 1)` needs no more than `k + 1` bytes. -/
theorem length_encodeNat_le {n k : Nat} (h : n < 128 ^ (k + 1)) : (encodeNat n).length ≤ k + 1 := by
  induction n using encodeNat.induct generalizing k with
  | case1 n hlast =>
      rw [encodeNat, if_pos hlast]
      exact Nat.le_add_left 1 k
  | case2 n hmore ih =>
      rw [encodeNat, if_neg hmore, List.length_cons]
      cases k with
      | zero => exact absurd h (by simpa using hmore)
      | succ k =>
          have hrest : n / 128 < 128 ^ (k + 1) := by
            rw [Nat.pow_succ] at h
            exact Nat.div_lt_of_lt_mul (by rwa [Nat.mul_comm])
          exact Nat.succ_le_succ (ih hrest)

theorem counted_encodeNat {n : Nat} (h : n < 2 ^ 64) : Counted (encodeNat n) := by
  have hlength : (encodeNat n).length ≤ 10 :=
    length_encodeNat_le (Nat.lt_trans h (by decide))
  unfold Counted
  omega

theorem unsigned_encodeNat {n : Nat} (hcounted : Counted (encodeNat n)) :
    unsigned (encodeNat n) = UInt64.ofNat n := by
  induction n using encodeNat.induct with
  | case1 n h =>
      rw [encodeNat, if_pos h]
      rw [unsigned_singleton, group_ofNat (show n < 256 by omega), Nat.mod_eq_of_lt h]
  | case2 n h ih =>
      rw [encodeNat, if_neg h] at hcounted ⊢
      rw [unsigned_cons hcounted, group_ofNat (by omega), ih hcounted.tail]
      have hlow : (n % 128 + 128) % 128 = n % 128 := by omega
      have hwhole : n = n % 128 + 128 * (n / 128) := by omega
      conv_rhs => rw [hwhole]
      rw [hlow, UInt64.ofNat_add, UInt64.ofNat_mul]
      rfl

theorem closed_encodeInt (n : Int) : Closed (encodeInt n) := by
  induction n using encodeInt.induct with
  | case1 n h =>
      rw [encodeInt, if_pos h]
      have hlt : (n % 128).toNat < 128 := by omega
      exact .last (by simp [continues_ofNat (show (n % 128).toNat < 256 by omega), hlt])
  | case2 n h ih =>
      rw [encodeInt, if_neg h]
      have hmore : continues (UInt8.ofNat ((n % 128).toNat + 128)) = true := by
        rw [continues_ofNat (by omega)]
        exact decide_eq_true (by omega)
      exact .more hmore ih

/-- A number between `-(64 * 128 ^ k)` and `64 * 128 ^ k` needs no more than `k + 1`
bytes. -/
theorem length_encodeInt_le {n : Int} {k : Nat} (hlow : -(64 * 128 ^ k) ≤ n)
    (hhigh : n < 64 * 128 ^ k) : (encodeInt n).length ≤ k + 1 := by
  induction n using encodeInt.induct generalizing k with
  | case1 n hlast =>
      rw [encodeInt, if_pos hlast]
      exact Nat.le_add_left 1 k
  | case2 n hmore ih =>
      rw [encodeInt, if_neg hmore, List.length_cons]
      cases k with
      | zero => exact absurd ⟨by simpa using hlow, by simpa using hhigh⟩ hmore
      | succ k =>
          rw [pow_succ] at hlow hhigh
          exact Nat.succ_le_succ (ih (by omega) (by omega))

theorem counted_encodeInt {n : Int} (hlow : -2 ^ 63 ≤ n) (hhigh : n < 2 ^ 63) :
    Counted (encodeInt n) := by
  have hlength : (encodeInt n).length ≤ 10 :=
    length_encodeInt_le (by omega) (by omega)
  unfold Counted
  omega

theorem encodeInt_ne_nil (n : Int) : encodeInt n ≠ [] := by
  rw [encodeInt]
  split <;> simp

/-- The low seven bits of a number, as a word. -/
theorem toBitVec_group {n : Int} {k : Nat} (h : k = (n % 128).toNat ∨ k = (n % 128).toNat + 128) :
    (group (UInt8.ofNat k)).toBitVec = BitVec.ofInt 64 (n % 128) := by
  have hlow : n % 128 = ((k % 128 : Nat) : Int) := by omega
  rw [group_ofNat (by omega), hlow, BitVec.ofInt_natCast]
  rfl

/-- Bit six of seven is the sign. -/
theorem sign_clear_iff {k : Nat} (h : k < 128) : UInt8.ofNat k &&& 0x40 = 0 ↔ k < 64 := by
  revert h k
  decide

theorem signedWord_encodeInt {n : Int} (hcounted : Counted (encodeInt n)) :
    (signedWord (encodeInt n)).toBitVec = BitVec.ofInt 64 n := by
  induction n using encodeInt.induct with
  | case1 n h =>
      have hgroup := toBitVec_group (n := n) (Or.inl rfl)
      rw [encodeInt, if_pos h, signedWord_singleton]
      by_cases hsign : 0 ≤ n
      · rw [if_pos ((sign_clear_iff (by omega)).mpr (by omega)), hgroup,
          Int.emod_eq_of_lt hsign (by omega)]
      · have hwhole : n = n % 128 - 128 := by omega
        rw [if_neg (mt (sign_clear_iff (by omega)).mp (by omega)), UInt64.toBitVec_sub, hgroup]
        conv_rhs => rw [hwhole, sub_eq_add_neg, BitVec.ofInt_add, BitVec.ofInt_neg]
        rw [BitVec.sub_eq_add_neg]
        rfl
  | case2 n h ih =>
      rw [encodeInt, if_neg h] at hcounted ⊢
      rw [signedWord_cons hcounted (encodeInt_ne_nil _)]
      have hwhole : n = n % 128 + 128 * (n / 128) := by omega
      conv_rhs => rw [hwhole, BitVec.ofInt_add, BitVec.ofInt_mul]
      rw [UInt64.toBitVec_add, UInt64.toBitVec_mul, ih hcounted.tail,
        toBitVec_group (Or.inr rfl)]
      rfl

theorem signed_encodeInt (value : Int64) : signed (encodeInt value.toInt) = value := by
  apply Int64.toBitVec_inj.mp
  change (signedWord (encodeInt value.toInt)).toBitVec = _
  rw [signedWord_encodeInt (counted_encodeInt value.le_toInt value.toInt_lt)]
  exact BitVec.ofInt_toInt

end Leb128

namespace Target

theorem readLeb128Bytes_eq (pos : UInt64) :
    target.readLeb128Bytes pos =
      match target.readU8 pos with
      | .error e next => .error e next
      | .ok byte next =>
          if Leb128.continues byte then
            match target.readLeb128Bytes next with
            | .ok rest last => .ok (byte :: rest) last
            | .error e last => .error e last
          else
            .ok [byte] next := by
  rw [readLeb128Bytes]
  cases hread : target.readU8 pos <;> rfl

theorem reads_leb128Bytes {bytes : List UInt8} (h : Leb128.Closed bytes) :
    target.Reads pos target.readLeb128Bytes bytes bytes := by
  induction h generalizing pos with
  | @last byte h =>
      intro hholds hroom
      have hread := reads_readU8 byte hholds hroom
      rw [readLeb128Bytes_eq, hread]
      simp [h]
  | @more byte rest h hrest ih =>
      intro hholds hroom
      have hfirst : target.Holds pos [byte] := ⟨hholds.1, trivial⟩
      rw [List.length_cons] at hroom ⊢
      have hread := reads_readU8 byte hfirst (by simp; omega)
      have hbehind : (pos + 1).toNat = pos.toNat + 1 := @toNat_add_ofNat pos 1 (by omega)
      have hlast := ih hholds.2 (by rw [hbehind]; omega)
      rw [readLeb128Bytes_eq, hread]
      simp only [h, if_true]
      rw [show pos + UInt64.ofNat [byte].length = pos + 1 from rfl, hlast, add_one_add_ofNat]

theorem leb128Overflows_eq (bits : UInt32) (pos : UInt64) :
    target.leb128Overflows bits pos =
      match target.readU8 pos with
      | .error _ _ => false
      | .ok byte next =>
          bits + 7 < bits ||
            Leb128.continues byte && target.leb128Overflows (bits + 7) next := by
  rw [leb128Overflows]
  cases hread : target.readU8 pos <;> rfl

theorem add_seven_lt_iff (bits : UInt32) : bits + 7 < bits ↔ 2 ^ 32 ≤ bits.toNat + 7 := by
  have hlt := bits.toNat_lt
  have hsum : (bits + 7).toNat = (bits.toNat + 7) % 2 ^ 32 := UInt32.toNat_add bits 7
  rw [UInt32.lt_iff_toNat_lt, hsum]
  omega

/-- The count of the bits overflows if they are more than 32 bits can count. -/
theorem leb128Overflows_iff {bytes : List UInt8} {bits : UInt32} (h : Leb128.Closed bytes)
    (hholds : target.Holds pos bytes) (hroom : pos.toNat + bytes.length < 2 ^ 64) :
    target.leb128Overflows bits pos = true ↔ 2 ^ 32 ≤ bits.toNat + 7 * bytes.length := by
  induction h generalizing pos bits with
  | @last byte h =>
      have hread := reads_readU8 byte hholds hroom
      rw [leb128Overflows_eq, hread]
      simp only [h, Bool.false_and, Bool.or_false, decide_eq_true_eq, add_seven_lt_iff]
      rfl
  | @more byte rest h hrest ih =>
      rw [List.length_cons] at hroom ⊢
      have hread := reads_readU8 byte ⟨hholds.1, trivial⟩ (show pos.toNat + 1 < 2 ^ 64 by omega)
      have hbehind : (pos + 1).toNat = pos.toNat + 1 := @toNat_add_ofNat pos 1 (by omega)
      have hlast := @ih (pos + 1) (bits + 7) hholds.2 (by rw [hbehind]; omega)
      rw [leb128Overflows_eq, hread]
      change (decide (bits + 7 < bits) || Leb128.continues byte && _) = true ↔ _
      rw [h, Bool.true_and, Bool.or_eq_true, decide_eq_true_eq, add_seven_lt_iff]
      change _ ∨ target.leb128Overflows (bits + 7) (pos + 1) = true ↔ _
      rw [hlast]
      by_cases hcount : bits.toNat + 7 < 2 ^ 32
      · rw [Leb128.toNat_add_seven hcount]
        omega
      · omega

/-- Where the bytes stand, their bits are counted without going past 32 bits. -/
def Counts (target : Target) (pos : UInt64) (bytes : List UInt8) : Prop :=
  target.Holds pos bytes → pos.toNat + bytes.length < 2 ^ 64 →
    target.leb128Overflows 0 pos = false

theorem counts_leb128 {bytes : List UInt8} (h : Leb128.Closed bytes)
    (hcounted : Leb128.Counted bytes) : target.Counts pos bytes := by
  intro hholds hroom
  rw [Bool.eq_false_iff, ne_eq, leb128Overflows_iff h hholds hroom, UInt32.toNat_zero, Nat.zero_add]
  exact Nat.not_le.mpr hcounted

theorem reads_uleb128 (value : UInt64) :
    target.Reads pos target.readULeb128 (Leb128.encodeUnsigned value) value := by
  have hbytes : target.Reads pos target.readLeb128Bytes _ _ :=
    reads_leb128Bytes (Leb128.closed_encodeNat value.toNat)
  refine hbytes.bind_pure ?_
  rw [Leb128.unsigned_encodeNat (Leb128.counted_encodeNat value.toNat_lt), UInt64.ofNat_toNat]

theorem reads_sleb128 (value : Int64) :
    target.Reads pos target.readSLeb128 (Leb128.encodeSigned value) value := by
  have hbytes : target.Reads pos target.readLeb128Bytes _ _ :=
    reads_leb128Bytes (Leb128.closed_encodeInt value.toInt)
  refine hbytes.bind_pure ?_
  rw [Leb128.signed_encodeInt]

/-- A number of at most 613566756 bytes, however padded, is read as the sum of its
groups modulo `2 ^ 64`, and where bit six of its last byte is set the power behind
the last group is taken away from a signed one.  So every number is read back from
its shortest bytes, and nothing behind them is read. -/
theorem readLeb128_sum (target : Target) (pos : UInt64) :
    (∀ (more : List UInt8) (last : UInt8),
      (∀ byte ∈ more, byte.toNat.testBit 7) → last.toNat.testBit 7 = false →
      7 * (more.length + 1) < 2 ^ 32 →
        let bytes := more ++ [last]
        let sum := ∑ i : Fin bytes.length, bytes[i].toNat % 128 * 128 ^ (i : Nat)
        target.Counts pos bytes ∧
          target.Reads pos target.readULeb128 bytes (UInt64.ofNat sum) ∧
          target.Reads pos target.readSLeb128 bytes
            (Int64.ofInt (sum - if last.toNat.testBit 6 then 128 ^ bytes.length else 0))) ∧
    (∀ value, target.Counts pos (Leb128.encodeUnsigned value) ∧
      target.Reads pos target.readULeb128 (Leb128.encodeUnsigned value) value) ∧
    (∀ value, target.Counts pos (Leb128.encodeSigned value) ∧
      target.Reads pos target.readSLeb128 (Leb128.encodeSigned value) value) := by
  refine ⟨fun more last hmore hlast hlength => ?_, fun value => ⟨?_, reads_uleb128 value⟩,
    fun value => ⟨?_, reads_sleb128 value⟩⟩
  · have hclosed := Leb128.closed_append hmore hlast
    have hcounted : Leb128.Counted (more ++ [last]) := by
      rwa [Leb128.Counted, List.length_append, List.length_singleton]
    have hbytes : target.Reads pos target.readLeb128Bytes _ _ := reads_leb128Bytes hclosed
    refine ⟨counts_leb128 hclosed hcounted, hbytes.bind_pure ?_, hbytes.bind_pure ?_⟩
    · rw [Leb128.unsigned_eq hcounted]
      rfl
    · rw [Leb128.signed_eq hcounted, Leb128.isNegative_append]
      rfl
  · exact counts_leb128 (Leb128.closed_encodeNat _) (Leb128.counted_encodeNat value.toNat_lt)
  · exact counts_leb128 (Leb128.closed_encodeInt _)
      (Leb128.counted_encodeInt value.le_toInt value.toInt_lt)

/-- Eleven bytes from `0x1005` on, of which the last two have no place in a word. -/
def paddedTarget : Target where
  arch := .x86_64
  loadWord addr :=
    if addr = 0x1000 then
      .ok 0xffff800000000000
    else if addr = 0x1008 then
      .ok 0x7fffffffffffffff
    else
      .error (.unreadable addr)
  loadReg reg := .error (.badRegister (UInt64.ofNat reg))
  loadFpReg reg := .error (.badRegister (UInt64.ofNat reg))

theorem readLeb128_sum_padded :
    let bytes : List UInt8 := 0x80 :: List.replicate 9 0xff ++ [0x7f]
    paddedTarget.Holds 0x1005 bytes ∧
      paddedTarget.leb128Overflows 0 0x1005 = false ∧
      paddedTarget.readULeb128 0x1005 = .ok 0xffffffffffffff80 0x1010 ∧
      paddedTarget.readSLeb128 0x1005 = .ok (-128) 0x1010 := by
  intro bytes
  have hholds : paddedTarget.Holds 0x1005 bytes := by
    simp only [bytes, List.replicate, List.cons_append, List.nil_append, Holds]
    decide +kernel
  have hmore : ∀ byte ∈ (0x80 :: List.replicate 9 0xff : List UInt8), byte.toNat.testBit 7 := by
    simp only [List.mem_cons, List.mem_replicate, forall_eq_or_imp]
    exact ⟨by decide, fun byte h => by rw [h.2]; decide⟩
  obtain ⟨hcounts, hunsigned, hsigned⟩ :=
    (readLeb128_sum paddedTarget 0x1005).1 (0x80 :: List.replicate 9 0xff) 0x7f hmore (by decide)
      (by decide)
  exact ⟨hholds, hcounts hholds (by decide), hunsigned hholds (by decide),
    hsigned hholds (by decide)⟩

/-- From address 3 on a number of 613566757 bytes `0x80` and a last byte `0x01`.
The byte at the last address is zero. -/
def longTarget : Target where
  arch := .x86_64
  loadWord addr := .ok (if addr < 0x24924928 then 0x8080808080808080 else 1)
  loadReg reg := .error (.badRegister (UInt64.ofNat reg))
  loadFpReg reg := .error (.badRegister (UInt64.ofNat reg))

theorem readByte_longTarget {addr : UInt64} (h : addr.toNat < 0x24924928) :
    longTarget.readByte addr = .ok 0x80 := by
  have halign : alignDown addr 8 ≤ addr := by
    rw [UInt64.le_iff_toNat_le, toNat_alignDown]
    exact Nat.sub_le _ _
  have hlane : (addr - alignDown addr 8).toNat < 8 := by
    have hmod := Nat.mod_lt addr.toNat (show 8 > 0 by decide)
    rw [UInt64.toNat_sub_of_le _ _ halign, toNat_alignDown]
    change addr.toNat - (addr.toNat - addr.toNat % 8) < 8
    omega
  have hword : longTarget.readWord (alignDown addr 8) = .ok 0x8080808080808080 := by
    have hlow : alignDown addr 8 < 0x24924928 := by
      rw [UInt64.le_iff_toNat_le] at halign
      rw [UInt64.lt_iff_toNat_lt]
      exact Nat.lt_of_le_of_lt halign h
    simp only [readWord, longTarget, if_pos hlow]
    rfl
  have hbyte : ∀ k : Fin 8,
      ((0x8080808080808080 : UInt64) >>> byteShift .little 8 (UInt64.ofNat k)).toUInt8 = 0x80 := by
    decide
  have hsame := hbyte ⟨_, hlane⟩
  rw [UInt64.ofNat_toNat] at hsame
  change (do
    let word ← longTarget.readWord (alignDown addr 8)
    return (word >>> byteShift .little 8 (addr - alignDown addr 8)).toUInt8) = _
  rw [hword, ok_bind, hsame]
  rfl

theorem holds_longTarget {pos : UInt64} {n : Nat} (h : pos.toNat + n = 0x24924928) :
    longTarget.Holds pos (List.replicate n 0x80 ++ [0x01]) := by
  induction n generalizing pos with
  | zero =>
      obtain rfl : pos = 0x24924928 := UInt64.toNat_inj.mp h
      exact ⟨by decide, trivial⟩
  | succ n ih =>
      have hnext : (pos + 1).toNat = pos.toNat + 1 := @toNat_add_ofNat pos 1 (by omega)
      exact ⟨readByte_longTarget (by omega), ih (by omega)⟩

/-- At the last address there is a number of one byte that cannot be read, as no
position is behind it.  And after 613566757 bytes the count of the bits is past
what 32 bits hold: a build with checked arithmetic stops there, and another goes on
counting from three, so that the one of the last byte is read as an eight although
its place in the sum is beyond every word. -/
theorem readULeb128_past_the_count :
    (longTarget.Holds maxWord [0x00] ∧
      longTarget.readULeb128 maxWord = .error (.unreadable maxWord) maxWord) ∧
    let bytes : List UInt8 := List.replicate 613566757 0x80 ++ [0x01]
    let sum := ∑ i : Fin bytes.length, bytes[i].toNat % 128 * 128 ^ (i : Nat)
    longTarget.Holds 0x3 bytes ∧ UInt64.ofNat sum = 0 ∧
      longTarget.leb128Overflows 0 0x3 = true ∧
      longTarget.readULeb128 0x3 = .ok 8 0x24924929 := by
  refine ⟨⟨⟨by decide, trivial⟩, ?_⟩, ?_⟩
  · have hbyte : longTarget.readU8 maxWord = .error (.unreadable maxWord) maxWord := rfl
    have hbytes : longTarget.readLeb128Bytes maxWord = .error (.unreadable maxWord) maxWord := by
      rw [readLeb128Bytes_eq, hbyte]
    exact Action.bind_eq_of_error hbytes _
  · intro bytes sum
    have hholds : longTarget.Holds 0x3 bytes := holds_longTarget rfl
    have hlength : bytes.length = 613566758 := by
      rw [List.length_append, List.length_replicate, List.length_singleton]
    have hclosed : Leb128.Closed bytes :=
      Leb128.closed_append (fun byte h => by rw [List.eq_of_mem_replicate h]; decide) (by decide)
    have hroom : (0x3 : UInt64).toNat + bytes.length < 2 ^ 64 := by
      rw [hlength]
      decide
    have hsum : UInt64.ofNat sum = 0 := by
      change UInt64.ofNat (Leb128.groupSum (List.replicate 613566757 0x80 ++ [0x01])) = 0
      rw [Leb128.groupSum_replicate, UInt64.ofNat_mul, Leb128.ofNat_pow_eq_zero (by omega),
        UInt64.zero_mul]
    have hread := reads_leb128Bytes hclosed hholds hroom
    refine ⟨hholds, hsum, ?_, ?_⟩
    · rw [leb128Overflows_iff hclosed hholds hroom, hlength]
      decide
    · have hvalue : Leb128.unsigned bytes = 8 := by
        rw [Leb128.unsigned_replicate]
        decide
      have hnext : (0x3 : UInt64) + UInt64.ofNat bytes.length = 0x24924929 := by
        rw [hlength]
        rfl
      rw [hnext] at hread
      have hanswer : longTarget.readULeb128 0x3 = .ok (Leb128.unsigned bytes) 0x24924929 :=
        Action.bind_eq_of_ok hread _
      rw [hanswer, hvalue]

end Target

end StackWalk
