/-!
# Arithmetic on machine words

All addresses and register values are 64-bit words; a narrower target keeps
its values in the low bits.  Sums that must not wrap are checked, all others
are modulo `2 ^ 64`.
-/

namespace StackWalk

/-- The largest word. -/
def maxWord : UInt64 :=
  UInt64.ofNat (UInt64.size - 1)

/-- The sum, unless it needs more than 64 bits. -/
def checkedAdd (a b : UInt64) : Option UInt64 :=
  if a.toNat + b.toNat < UInt64.size then
    some (a + b)
  else
    none

/-- The product, unless it needs more than 64 bits. -/
def checkedMul (a b : UInt64) : Option UInt64 :=
  if a.toNat * b.toNat < UInt64.size then
    some (a * b)
  else
    none

/-- Copies bit `bits - 1` of `value` into all bits above it. -/
def signExtend (bits : Nat) (value : UInt64) : UInt64 :=
  UInt64.ofBitVec ((value.toBitVec.setWidth bits).signExtend 64)

/-- The address `offset` bytes away from `base`, modulo `2 ^ 64`. -/
def addOffset (base : UInt64) (offset : Int64) : UInt64 :=
  base + offset.toUInt64

/-- The multiple of `size` at or below `addr`. -/
def alignDown (addr size : UInt64) : UInt64 :=
  addr - addr % size

theorem toNat_checkedAdd {a b c : UInt64} (h : checkedAdd a b = some c) :
    c.toNat = a.toNat + b.toNat := by
  unfold checkedAdd at h
  split at h
  · rename_i hlt
    obtain rfl := Option.some.inj h
    rw [UInt64.toNat_add, Nat.mod_eq_of_lt hlt]
  · exact absurd h (by simp)

theorem toNat_alignDown (addr size : UInt64) :
    (alignDown addr size).toNat = addr.toNat - addr.toNat % size.toNat := by
  unfold alignDown
  have h : addr % size ≤ addr := by
    rw [UInt64.le_iff_toNat_le, UInt64.toNat_mod]
    exact Nat.mod_le _ _
  rw [UInt64.toNat_sub_of_le _ _ h, UInt64.toNat_mod]

end StackWalk
