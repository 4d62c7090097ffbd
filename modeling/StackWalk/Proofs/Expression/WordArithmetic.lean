import Mathlib.Data.BitVec
import Mathlib.Tactic
import StackWalk.Expression.Arithmetic
import StackWalk.Proofs.Word

/-!
# Arithmetic on words of a width

A word of `w` bits stands for a number below `2 ^ w`, and in two's complement
for a signed one.  Here the operations of an expression are said of these
numbers, with no 64-bit word around them.  Computing with 64-bit words and
cutting the result to `w` bits comes to the same, for every width up to 64.
-/

namespace StackWalk.Expression

variable {w : Nat}

/-! ## The operations on numbers -/

def truthWord (w : Nat) (p : Prop) [Decidable p] : BitVec w :=
  if p then 1#w else 0#w

def UnaryOp.onWord (a : BitVec w) : UnaryOp → BitVec w
  | .abs => .ofInt w |a.toInt|
  | .neg => .ofInt w (-a.toInt)
  | .not => ~~~a

/-- The result for `a`, which lies below `b`; there is none for a division by
zero. -/
def BinaryOp.onWords (a b : BitVec w) : BinaryOp → Option (BitVec w)
  | .and => some (a &&& b)
  | .div => if b.toInt = 0 then none else some (.ofInt w (a.toInt.tdiv b.toInt))
  | .minus => some (.ofInt w (a.toInt - b.toInt))
  | .mod => if b.toNat = 0 then none else some (.ofNat w (a.toNat % b.toNat))
  | .mul => some (.ofInt w (a.toInt * b.toInt))
  | .or => some (a ||| b)
  | .plus => some (.ofInt w (a.toInt + b.toInt))
  | .shl => some (if b.toNat < w then .ofNat w (a.toNat * 2 ^ b.toNat) else 0#w)
  | .shr => some (if b.toNat < w then .ofNat w (a.toNat / 2 ^ b.toNat) else 0#w)
  | .shra =>
      some (if b.toNat < w then .ofInt w (a.toInt / 2 ^ b.toNat)
        else if a.toInt < 0 then .ofInt w (-1) else 0#w)
  | .xor => some (a ^^^ b)
  | .eq => some (truthWord w (a.toInt = b.toInt))
  | .ge => some (truthWord w (b.toInt ≤ a.toInt))
  | .gt => some (truthWord w (b.toInt < a.toInt))
  | .le => some (truthWord w (a.toInt ≤ b.toInt))
  | .lt => some (truthWord w (a.toInt < b.toInt))
  | .ne => some (truthWord w (a.toInt ≠ b.toInt))

/-! ## Words and the cells that hold them -/

def cellOf (a : BitVec w) : UInt64 :=
  UInt64.ofNat a.toNat

def truncated (w : Nat) (word : UInt64) : BitVec w :=
  BitVec.ofNat w word.toNat

theorem truncated_eq_setWidth (word : UInt64) : truncated w word = word.toBitVec.setWidth w :=
  BitVec.ofNat_toNat w word.toBitVec

@[simp] theorem toBitVec_cellOf (a : BitVec w) : (cellOf a).toBitVec = a.setWidth 64 := by
  rw [cellOf, UInt64.toBitVec_ofNat', BitVec.ofNat_toNat]

theorem toNat_cellOf (hw : w ≤ 64) (a : BitVec w) : (cellOf a).toNat = a.toNat := by
  have hlt : a.toNat < 2 ^ 64 := a.isLt.trans_le (Nat.pow_le_pow_right (by decide) hw)
  exact UInt64.toNat_ofNat_of_lt' hlt

theorem truncated_cellOf (hw : w ≤ 64) (a : BitVec w) : truncated w (cellOf a) = a := by
  rw [truncated_eq_setWidth, toBitVec_cellOf, BitVec.setWidth_setWidth_of_le _ hw,
    BitVec.setWidth_eq]

theorem and_wordMask_eq_cellOf (arch : Arch) (word : UInt64) :
    word &&& arch.wordMask = cellOf (truncated arch.wordBits word) := by
  apply UInt64.toNat_inj.mp
  rw [Arch.toNat_and_wordMask, toNat_cellOf arch.wordBits_le, truncated, BitVec.toNat_ofNat]

theorem toInt_signedCell (hw : w ≤ 64) (a : BitVec w) :
    (signedCell w (cellOf a)).toInt = a.toInt := by
  change (((cellOf a).toBitVec.setWidth w).signExtend 64).toInt = a.toInt
  rw [toBitVec_cellOf, BitVec.setWidth_setWidth_of_le _ hw, BitVec.setWidth_eq,
    BitVec.toInt_signExtend_of_le hw]

theorem ofInt_eq_of_emod_eq (hw : w ≤ 64) {m n : Int} (h : m % 2 ^ 64 = n % 2 ^ 64) :
    BitVec.ofInt w m = BitVec.ofInt w n := by
  have hdvd : (2 : Int) ^ w ∣ 2 ^ 64 := pow_dvd_pow 2 hw
  have hmod : m % 2 ^ w = n % 2 ^ w := by
    rw [← Int.emod_emod_of_dvd m hdvd, h, Int.emod_emod_of_dvd n hdvd]
  apply BitVec.eq_of_toNat_eq
  simp only [BitVec.toNat_ofInt, Nat.cast_pow, Nat.cast_ofNat, hmod]

theorem bmod_emod_word (n : Int) : n.bmod (2 ^ 64) % 2 ^ 64 = n % 2 ^ 64 := by
  have h := Int.bmod_emod (x := n) (m := 2 ^ 64)
  push_cast at h
  exact h

theorem truncated_toUInt64 (hw : w ≤ 64) {value : Int64} {n : Int}
    (h : value.toInt % 2 ^ 64 = n % 2 ^ 64) : truncated w value.toUInt64 = .ofInt w n := by
  rw [← ofInt_eq_of_emod_eq hw h, truncated, ← BitVec.ofInt_natCast]
  apply ofInt_eq_of_emod_eq hw
  rw [← toInt_emod, Int.emod_emod_of_dvd _ dvd_rfl]

theorem truncated_signExtend (hw : w ≤ 64) {bits : Nat} (hbits : bits ≤ 64) (word : UInt64) :
    truncated w (signExtend bits word) = .ofInt w (Int.bmod word.toNat (2 ^ bits)) := by
  refine @truncated_toUInt64 w hw (signExtend bits word).toInt64 _ ?_
  rw [toInt_signExtend hbits]

theorem truncated_addOffset (hw : w ≤ 64) (base : UInt64) (offset : Int64) :
    truncated w (addOffset base offset) = .ofInt w (base.toNat + offset.toInt) := by
  have hoffset : truncated w offset.toUInt64 = .ofInt w offset.toInt := truncated_toUInt64 hw rfl
  rw [truncated_eq_setWidth, addOffset, UInt64.toBitVec_add, BitVec.setWidth_add _ _ hw,
    ← truncated_eq_setWidth, ← truncated_eq_setWidth, hoffset, BitVec.ofInt_add,
    BitVec.ofInt_natCast]
  rfl

theorem truncated_cellOf_add (hw : w ≤ 64) (a : BitVec w) (word : UInt64) :
    truncated w (cellOf a + word) = .ofInt w (a.toInt + word.toNat) := by
  rw [truncated_eq_setWidth, UInt64.toBitVec_add, BitVec.setWidth_add _ _ hw,
    ← truncated_eq_setWidth, ← truncated_eq_setWidth, truncated_cellOf hw, BitVec.ofInt_add,
    BitVec.ofInt_toInt, BitVec.ofInt_natCast]
  rfl

/-! ## One operation -/

theorem truncated_unary (hw : w ≤ 64) (op : UnaryOp) (a : BitVec w) :
    truncated w (op.apply w (cellOf a)) = op.onWord a := by
  cases op with
  | abs =>
      have hsigned := toInt_signedCell hw a
      simp only [UnaryOp.apply, UnaryOp.onWord]
      split
      · rename_i hneg
        rw [Int64.lt_iff_toInt_lt, hsigned] at hneg
        apply truncated_toUInt64 hw
        rw [Int64.toInt_neg, bmod_emod_word, hsigned, abs_of_neg hneg]
      · rename_i hnonneg
        rw [Int64.lt_iff_toInt_lt, hsigned] at hnonneg
        apply truncated_toUInt64 hw
        rw [hsigned, abs_of_nonneg (not_lt.mp hnonneg)]
  | neg =>
      rw [truncated_eq_setWidth]
      simp [UnaryOp.apply, UnaryOp.onWord, BitVec.setWidth_neg_of_le hw, BitVec.ofInt_neg, hw]
  | not =>
      rw [truncated_eq_setWidth]
      simp [UnaryOp.apply, UnaryOp.onWord, BitVec.setWidth_not hw, hw]

/-! ## Shifts -/

theorem cellOf_lt_iff (hw : w ≤ 64) (b : BitVec w) : cellOf b < 64 ↔ b.toNat < 64 := by
  rw [UInt64.lt_iff_toNat_lt, toNat_cellOf hw]
  rfl

theorem truncated_shl (hw : w ≤ 64) (a b : BitVec w) :
    truncated w (if cellOf b < 64 then cellOf a <<< cellOf b else 0) =
      if b.toNat < w then BitVec.ofNat w (a.toNat * 2 ^ b.toNat) else 0#w := by
  have hlong (hle : w ≤ b.toNat) : BitVec.ofNat w (a.toNat * 2 ^ b.toNat) = 0#w := by
    apply BitVec.eq_of_toNat_eq
    rw [BitVec.toNat_ofNat, BitVec.toNat_ofNat, Nat.zero_mod]
    exact Nat.mod_eq_zero_of_dvd ((pow_dvd_pow 2 hle).mul_left _)
  by_cases h64 : b.toNat < 64
  · have hshift : truncated w (cellOf a <<< cellOf b) = .ofNat w (a.toNat * 2 ^ b.toNat) := by
      apply BitVec.eq_of_toNat_eq
      simp only [truncated, BitVec.toNat_ofNat, UInt64.toNat_shiftLeft, toNat_cellOf hw,
        Nat.mod_eq_of_lt h64, Nat.shiftLeft_eq]
      exact Nat.mod_mod_of_dvd _ (pow_dvd_pow 2 hw)
    rw [if_pos ((cellOf_lt_iff hw b).mpr h64), hshift]
    split
    · rfl
    · rename_i hle
      exact hlong (not_lt.mp hle)
  · rw [if_neg (mt (cellOf_lt_iff hw b).mp h64), if_neg (by omega)]
    rfl

theorem truncated_shr (hw : w ≤ 64) (a b : BitVec w) :
    truncated w (if cellOf b < 64 then cellOf a >>> cellOf b else 0) =
      if b.toNat < w then BitVec.ofNat w (a.toNat / 2 ^ b.toNat) else 0#w := by
  by_cases h64 : b.toNat < 64
  · have hshift : truncated w (cellOf a >>> cellOf b) = .ofNat w (a.toNat / 2 ^ b.toNat) := by
      simp only [truncated, UInt64.toNat_shiftRight, toNat_cellOf hw, Nat.mod_eq_of_lt h64,
        Nat.shiftRight_eq_div_pow]
    rw [if_pos ((cellOf_lt_iff hw b).mpr h64), hshift]
    split
    · rfl
    · rename_i hle
      have hlt : a.toNat < 2 ^ b.toNat :=
        a.isLt.trans_le (Nat.pow_le_pow_right (by decide) (not_lt.mp hle))
      rw [Nat.div_eq_of_lt hlt]
  · rw [if_neg (mt (cellOf_lt_iff hw b).mp h64), if_neg (by omega)]
    rfl

theorem toInt_shiftRight (value : Int64) {count : UInt64} (h : count.toNat < 64) :
    (value >>> count.toInt64).toInt = value.toInt / 2 ^ count.toNat := by
  have hcount : (count.toBitVec.smod 64).toNat = count.toNat := by
    have hmsb : count.toBitVec.msb = false := by
      rw [BitVec.msb_eq_false_iff_two_mul_lt]
      change 2 * count.toNat < 2 ^ 64
      omega
    have hwidth : (64 : BitVec 64).msb = false := rfl
    rw [BitVec.toNat_smod, hmsb, hwidth]
    change count.toNat % 64 = count.toNat
    exact Nat.mod_eq_of_lt h
  change (value >>> count.toInt64).toBitVec.toInt = value.toBitVec.toInt / 2 ^ count.toNat
  rw [Int64.toBitVec_shiftRight, UInt64.toBitVec_toInt64, BitVec.toInt_sshiftRight', hcount,
    Int.shiftRight_eq_div_pow]
  push_cast
  rfl

/-- Shifting a signed word by its width or more leaves nothing but its sign. -/
theorem toInt_ediv_of_long {a : BitVec w} {count : Nat} (h : w ≤ count + 1) :
    a.toInt / 2 ^ count = if a.toInt < 0 then -1 else 0 := by
  have hpow : (2 : Int) ^ (w - 1) ≤ 2 ^ count := pow_le_pow_right₀ (by decide) (by omega)
  have hlt := @BitVec.toInt_lt w a
  have hle := BitVec.le_toInt a
  split
  · exact Int.ediv_eq_neg_one_of_neg_of_le ‹_› (by omega)
  · exact Int.ediv_eq_zero_of_lt (by omega) (by omega)

theorem truncated_shra (hw : w ≤ 64) (a b : BitVec w) :
    truncated w (signedCell w (cellOf a) >>> (min (cellOf b) 63).toInt64).toUInt64 =
      if b.toNat < w then .ofInt w (a.toInt / 2 ^ b.toNat)
      else if a.toInt < 0 then .ofInt w (-1) else 0#w := by
  have hmin : (min (cellOf b) 63).toNat = min b.toNat 63 := by
    rw [UInt64.toNat_min, toNat_cellOf hw]
    rfl
  have hlt : (min (cellOf b) 63).toNat < 64 := by omega
  have hshift := toInt_shiftRight (signedCell w (cellOf a)) hlt
  rw [toInt_signedCell hw, hmin] at hshift
  rw [truncated_toUInt64 hw (congrArg (· % 2 ^ 64) hshift)]
  split
  · rw [Nat.min_eq_left (by omega)]
  · rw [toInt_ediv_of_long (by omega)]
    split
    · rfl
    · simp

/-! ## Comparisons -/

theorem truncated_truth (p : Prop) [Decidable p] :
    truncated w (truth (decide p)) = truthWord w p := by
  unfold truth truthWord
  by_cases h : p <;> simp [h, truncated]

/-! ## Operations on two cells -/

theorem truncated_binary (hw : w ≤ 64) (op : BinaryOp) (a b : BitVec w) :
    (op.apply w (cellOf a) (cellOf b)).map (truncated w) =
      match op.onWords a b with
      | some word => .ok word
      | none => .error (.invalidArgument .divisionByZero) := by
  have ha := toInt_signedCell hw a
  have hb := toInt_signedCell hw b
  cases op with
  | and => simp [BinaryOp.apply, BinaryOp.onWords, truncated_eq_setWidth, Except.map, hw]
  | or => simp [BinaryOp.apply, BinaryOp.onWords, truncated_eq_setWidth, Except.map, hw]
  | xor => simp [BinaryOp.apply, BinaryOp.onWords, truncated_eq_setWidth, Except.map, hw]
  | plus =>
      simp [BinaryOp.apply, BinaryOp.onWords, truncated_eq_setWidth, Except.map,
        BitVec.setWidth_add _ _ hw, BitVec.ofInt_add, hw]
  | minus =>
      simp [BinaryOp.apply, BinaryOp.onWords, truncated_eq_setWidth, Except.map,
        BitVec.setWidth_add _ _ hw, BitVec.setWidth_neg_of_le hw,
        sub_eq_add_neg, BitVec.ofInt_add, BitVec.ofInt_neg, hw]
  | mul =>
      simp [BinaryOp.apply, BinaryOp.onWords, truncated_eq_setWidth, Except.map,
        BitVec.setWidth_mul _ _ hw, BitVec.ofInt_mul, hw]
  | div =>
      have hzero : signedCell w (cellOf b) = 0 ↔ b.toInt = 0 := by
        rw [← Int64.toInt_inj, hb, Int64.toInt_zero]
      simp only [BinaryOp.apply, BinaryOp.onWords, hzero]
      split
      · rfl
      · apply congrArg Except.ok
        apply truncated_toUInt64 hw
        rw [Int64.toInt_div, bmod_emod_word, ha, hb]
  | mod =>
      have hzero : cellOf b = 0 ↔ b.toNat = 0 := by
        rw [← UInt64.toNat_inj, toNat_cellOf hw]
        rfl
      simp only [BinaryOp.apply, BinaryOp.onWords, hzero]
      split
      · rfl
      · simp only [Except.map, truncated, UInt64.toNat_mod, toNat_cellOf hw]
  | shl => simp only [BinaryOp.apply, BinaryOp.onWords, Except.map, truncated_shl hw]
  | shr => simp only [BinaryOp.apply, BinaryOp.onWords, Except.map, truncated_shr hw]
  | shra => simp only [BinaryOp.apply, BinaryOp.onWords, Except.map, truncated_shra hw]
  | eq =>
      simp only [BinaryOp.apply, BinaryOp.onWords, Except.map, beq_eq_decide, ← Int64.toInt_inj,
        truncated_truth, ha, hb]
  | ne =>
      simp only [BinaryOp.apply, BinaryOp.onWords, Except.map, bne, beq_eq_decide, ← decide_not,
        ← Int64.toInt_inj, truncated_truth, ha, hb, ne_eq]
  | ge | gt | le | lt =>
      simp only [BinaryOp.apply, BinaryOp.onWords, Except.map, Int64.le_iff_toInt_le,
        Int64.lt_iff_toInt_lt, truncated_truth, ha, hb]

/-- The least signed word has no opposite, and division wraps there. -/
example : BinaryOp.div.onWords 0x80000000#32 (-1#32) = some 0x80000000#32 := by decide

end StackWalk.Expression
