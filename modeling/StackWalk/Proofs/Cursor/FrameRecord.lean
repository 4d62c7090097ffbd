import Mathlib.Tactic
import StackWalk.Arch.Shipped
import StackWalk.Cursor
import StackWalk.Proofs.Cursor.Heuristics
import StackWalk.Proofs.Cursor.Rules
import StackWalk.Proofs.Word

/-!
# Frame records

A function that keeps a frame pointer leaves a record of two words where it
points: the caller's frame pointer, and the return address.  Following the
record and applying the rules that describe it lead to the same caller.
-/

namespace StackWalk

namespace Arch

/-- The rules of code that keeps a frame pointer and a record there. -/
def recordTable (arch : Arch) (fpReg : Column) : RuleTable :=
  { ((RuleTable.default arch).withRule fpReg
        (.cfaRelative (-(2 * arch.wordSize).toInt64))).withRule arch.returnAddress
        (.cfaRelative (-arch.wordSize.toInt64)) with
    cfa := .registerOffset fpReg (2 * arch.wordSize).toInt64 }

/-- What walking records needs of an architecture: its columns are kept apart,
and a word has four or eight bytes. -/
structure KeepsRecords (arch : Arch) (fpReg : Column) : Prop where
  fp : arch.fp = some fpReg
  size : arch.addressSize = 4 ∨ arch.addressSize = 8
  fp_lt : fpReg < maxColumns
  fp_lt_numRegs : fpReg < arch.numRegs
  ra_lt : arch.returnAddress < maxColumns
  sp_lt : arch.sp < maxColumns
  fp_ne_ra : fpReg ≠ arch.returnAddress
  fp_ne_sp : fpReg ≠ arch.sp
  ra_ne_sp : arch.returnAddress ≠ arch.sp
  ip_ne_fp : arch.ip ≠ fpReg
  ip_ne_sp : arch.ip ≠ arch.sp
  fp_general : arch.isFp fpReg = false
  ra_general : arch.isFp arch.returnAddress = false
  explicit : (arch.recordTable fpReg).explicit =
    [(fpReg, .cfaRelative (-(2 * arch.wordSize).toInt64)),
      (arch.returnAddress, .cfaRelative (-arch.wordSize.toInt64))]

theorem keepsRecords_of_shipped {arch : Arch} (h : arch ∈ shipped) {fpReg : Column}
    (hfp : arch.fp = some fpReg) : arch.KeepsRecords fpReg := by
  simp only [shipped, List.mem_cons, List.not_mem_nil, or_false] at h
  rcases h with rfl | rfl | rfl <;> obtain rfl := Option.some.inj hfp <;>
    constructor <;> decide

end Arch

theorem Locations.of_live {arch : Arch} {reg : Column} (hkept : reg < maxColumns)
    (hreg : reg < arch.numRegs) : (live arch).of reg = .register reg (arch.isFp reg) := by
  simp [Locations.of, live, hkept, hreg]

/-! ## Records -/

/-- A frame pointer and the return address stored above what it points at. -/
structure FrameRecord where
  fp : UInt64
  ra : UInt64
  deriving DecidableEq, Repr

namespace FrameRecord

variable {arch : Arch} {target : Target} {fpReg : Column} {record : FrameRecord}

/-- The address behind the record. -/
def cfa (record : FrameRecord) (arch : Arch) : UInt64 :=
  record.fp + 2 * arch.wordSize

/-- The record is in memory and stands for a frame with a caller. -/
structure InMemory (target : Target) (record : FrameRecord) : Prop where
  fp_ne_zero : record.fp ≠ 0
  fp_aligned : record.fp % target.arch.wordSize = 0
  fits : record.fp.toNat + 2 * target.arch.addressSize ≤ target.arch.wordMask.toNat
  stored : target.readWord (record.fp + target.arch.wordSize) = .ok record.ra
  ra_ne_zero : record.ra ≠ 0
  ra_aligned : record.ra % target.arch.ipAlignment = 0

/-- The locations of the caller of a frame with these locations. -/
def callerLocs (record : FrameRecord) (arch : Arch) (fpReg : Column) (locs : Locations) :
    Locations :=
  ((locs.put fpReg (.memory record.fp false)).put arch.returnAddress
    (.memory (record.fp + arch.wordSize) false)).put arch.sp (.value (record.cfa arch))

theorem toNat_wordSize (harch : arch.KeepsRecords fpReg) :
    arch.wordSize.toNat = arch.addressSize := by
  rcases harch.size with hsize | hsize <;> simp [Arch.wordSize, hsize]

theorem toNat_slot (harch : target.arch.KeepsRecords fpReg) (h : record.InMemory target) :
    (record.fp + target.arch.wordSize).toNat = record.fp.toNat + target.arch.addressSize := by
  have hfits := h.fits
  have hmask := target.arch.wordMask.toNat_lt
  rw [UInt64.toNat_add, toNat_wordSize harch]
  exact Nat.mod_eq_of_lt (by omega)

theorem toNat_double (harch : arch.KeepsRecords fpReg) :
    (2 * arch.wordSize).toNat = 2 * arch.addressSize := by
  rcases harch.size with hsize | hsize <;> simp [Arch.wordSize, hsize]

theorem toNat_cfa (harch : target.arch.KeepsRecords fpReg) (h : record.InMemory target) :
    (record.cfa target.arch).toNat = record.fp.toNat + 2 * target.arch.addressSize := by
  have hfits := h.fits
  have hmask := target.arch.wordMask.toNat_lt
  unfold cfa
  rw [UInt64.toNat_add, toNat_double harch]
  exact Nat.mod_eq_of_lt (by omega)

/-! ## Following the record -/

theorem inRecord_eq {fp length : UInt64}
    (h : fp.toNat + length.toNat ≤ arch.wordMask.toNat) :
    Heuristic.FramePointer.inRecord arch fp length = some (fp + length) := by
  have hmask := arch.wordMask.toNat_lt
  have hsum : (fp + length).toNat = fp.toNat + length.toNat := by
    rw [UInt64.toNat_add]
    exact Nat.mod_eq_of_lt (by omega)
  have hle : fp + length ≤ arch.wordMask := by
    rw [UInt64.le_iff_toNat_le, hsum]
    exact h
  unfold Heuristic.FramePointer.inRecord
  rw [checkedAdd_of_lt (by omega)]
  simp [hle]

theorem framePointer_step (harch : target.arch.KeepsRecords fpReg) (h : record.InMemory target)
    (frame : Frame) (hfp : (frame.locs.of fpReg).read target fpReg = .ok record.fp) :
    Heuristic.FramePointer.step target frame =
      .ok (some {
        cfa := record.cfa target.arch
        locs := record.callerLocs target.arch fpReg frame.locs
        ipColumn := target.arch.returnAddress
        method := .framePointer
        exactIp := false
        raSigned := false }) := by
  have hfits := h.fits
  have hslot : Heuristic.FramePointer.inRecord target.arch record.fp target.arch.wordSize =
      some (record.fp + target.arch.wordSize) :=
    inRecord_eq (by rw [toNat_wordSize harch]; omega)
  have hcfa : Heuristic.FramePointer.inRecord target.arch record.fp (2 * target.arch.wordSize) =
      some (record.cfa target.arch) :=
    inRecord_eq (by rw [toNat_double harch]; omega)
  exact Heuristic.FramePointer.step_eq_some_iff.mpr ⟨fpReg, record.fp, _, _,
    ⟨harch.fp, hfp, h.fp_ne_zero, h.fp_aligned, hslot, hcfa, record.ra, h.stored⟩, rfl⟩

/-! ## Applying the rules -/

theorem resolveCfa_eq (harch : target.arch.KeepsRecords fpReg) (h : record.InMemory target)
    {locs : Locations} (hfp : (locs.of fpReg).read target fpReg = .ok record.fp) :
    resolveCfa target locs (.registerOffset fpReg (2 * target.arch.wordSize).toInt64) =
      .ok (record.cfa target.arch) := by
  have hcfa : (record.cfa target.arch).toNat ≤ target.arch.wordMask.toNat := by
    rw [toNat_cfa harch h]
    exact h.fits
  have hsum : addOffset record.fp (2 * target.arch.wordSize).toInt64 = record.cfa target.arch :=
    addOffset_toInt64 _ _
  simp only [resolveCfa, hfp, ok_bind, hsum, Arch.and_wordMask hcfa, pure_eq_ok]

theorem atCfa_fp (h : record.InMemory target) :
    atCfa target (record.cfa target.arch) (-(2 * target.arch.wordSize).toInt64) = record.fp := by
  have hfits := h.fits
  have hsum : addOffset (record.cfa target.arch) (-(2 * target.arch.wordSize).toInt64) =
      record.fp := by
    rw [addOffset_neg_toInt64]
    exact UInt64.add_sub_cancel _ _
  unfold atCfa
  rw [hsum]
  exact Arch.and_wordMask (by omega)

theorem atCfa_slot (harch : target.arch.KeepsRecords fpReg) (h : record.InMemory target) :
    atCfa target (record.cfa target.arch) (-target.arch.wordSize.toInt64) =
      record.fp + target.arch.wordSize := by
  have hfits := h.fits
  have hsum : addOffset (record.cfa target.arch) (-target.arch.wordSize.toInt64) =
      record.fp + target.arch.wordSize := by
    rw [addOffset_neg_toInt64]
    unfold cfa
    grind
  unfold atCfa
  rw [hsum]
  exact Arch.and_wordMask (by rw [toNat_slot harch h]; omega)

theorem applyRules_eq (harch : target.arch.KeepsRecords fpReg) (h : record.InMemory target)
    {locs : Locations} (hfp : (locs.of fpReg).read target fpReg = .ok record.fp) :
    applyRules target locs (.registerOffset fpReg (2 * target.arch.wordSize).toInt64)
        (target.arch.recordTable fpReg).explicit =
      .ok (record.cfa target.arch, record.callerLocs target.arch fpReg locs) := by
  have hsp : ((target.arch.recordTable fpReg).explicit.any (·.1 == target.arch.sp)) = false := by
    rw [harch.explicit]
    simp [harch.fp_ne_sp, harch.ra_ne_sp]
  unfold applyRules
  rw [resolveCfa_eq harch h hfp, ok_bind, hsp, harch.explicit]
  simp only [resolveRules, resolveRule, atCfa_fp h, atCfa_slot harch h, ok_bind, pure_eq_ok,
    harch.fp_general, harch.ra_general, callerLocs]
  rfl

end FrameRecord
end StackWalk
