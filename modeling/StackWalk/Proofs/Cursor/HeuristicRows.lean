import StackWalk.Proofs.Caller.Bounds
import StackWalk.Proofs.Caller.Substitution
import StackWalk.Proofs.Cursor.FrameRecord
import StackWalk.Proofs.Cursor.Heuristics

/-!
# Heuristics as rows

Each heuristic makes up what call frame information would say of the code it
takes the frame for.  That is one row for all frames: applying its rules leads
to the same CFA and to the same location of every column.
-/

namespace StackWalk

namespace Arch

/-- The column is a general register of the register file. -/
structure General (arch : Arch) (reg : Column) : Prop where
  lt : reg < arch.numRegs
  general : arch.isFp reg = false

/-- The columns that heuristics go by are different general registers. -/
structure KeepsApart (arch : Arch) : Prop where
  kept : arch.numRegs ≤ maxColumns
  sp : arch.General arch.sp
  ra : arch.General arch.returnAddress
  ra_ne_sp : arch.returnAddress ≠ arch.sp
  fp : ∀ reg ∈ arch.fp, arch.General reg ∧ reg ≠ arch.returnAddress ∧ reg ≠ arch.sp

/-- The rules of a linkage stub: the return address is the word at the stack
pointer. -/
def stubTable (arch : Arch) : RuleTable :=
  { (RuleTable.default arch).withRule arch.returnAddress
      (.cfaRelative (-arch.wordSize.toInt64)) with
    cfa := .registerOffset arch.sp arch.wordSize.toInt64 }

end Arch

/-- Whatever general register of the frame is read, it holds a word of the
target. -/
def Frame.HoldsWords (target : Target) (frame : Frame) : Prop :=
  ∀ reg value, target.arch.isFp reg = false →
    (frame.locs.of reg).read target reg = .ok value → value ≤ target.arch.wordMask

/-! ## Tables and the rules in them -/

theorem RuleTable.separate_explicit {table : RuleTable} (h : table.numRegs ≤ maxColumns) :
    Separate table.explicit := by
  constructor
  · intro entry hentry
    exact (mem_explicit_iff.mp hentry).1.trans_le h
  · have hsorted : (table.explicit.map Prod.fst).Sublist (List.range table.numRegs) := by
      unfold explicit
      generalize List.range table.numRegs = regs
      induction regs with
      | nil => exact .slnil
      | cons reg rest ih =>
          rw [List.filterMap_cons]
          split
          · exact ih.cons _
          · rename_i entry hentry
            split at hentry
            · cases hentry
            · cases hentry
              exact ih.cons_cons _
    exact hsorted.nodup List.nodup_range

variable {target : Target} {frame : Frame} {locs : Locations} {cfa : UInt64}

/-- The caller has each column where the rules of the table put it. -/
def RuleTable.Leads (table : RuleTable) (target : Target) (locs : Locations) (cfa : UInt64)
    (caller : Locations) : Prop :=
  ∀ reg,
    if reg < table.numRegs ∧ table.ruleOf reg ≠ .sameValue then
      placed target locs cfa reg (table.ruleOf reg) = .ok (caller.of reg)
    else
      caller.of reg = (locs.put target.arch.sp (.value cfa)).of reg

namespace RuleTable

theorem leads_default (target : Target) (locs : Locations) (cfa : UInt64) :
    (RuleTable.default target.arch).Leads target locs cfa
      (locs.put target.arch.sp (.value cfa)) := by
  intro reg
  rw [if_neg (by simp)]

/-- One more rule moves one column. -/
theorem Leads.withRule {table : RuleTable} {caller : Locations}
    (h : table.Leads target locs cfa caller) {reg : Column} {rule : RegisterRule}
    {loc : Location} (hreg : reg < table.numRegs) (hkept : reg < maxColumns)
    (hruled : rule ≠ .sameValue) (hplaced : placed target locs cfa reg rule = .ok loc) :
    (table.withRule reg rule).Leads target locs cfa (caller.put reg loc) := by
  intro other
  by_cases hsame : reg = other
  · subst hsame
    rw [ruleOf_withRule_self hkept, if_pos ⟨hreg, hruled⟩, Locations.of_put_self hkept]
    exact hplaced
  · rw [ruleOf_withRule_ne hsame, Locations.of_put_ne hsame]
    exact h other

theorem Leads.applyRules {table : RuleTable} {caller : Locations}
    (h : table.Leads target locs cfa caller) (hsp : target.arch.sp < maxColumns)
    (hsize : table.numRegs ≤ maxColumns) (hcfa : resolveCfa target locs table.cfa = .ok cfa) :
    applyRules target locs table.cfa table.explicit = .ok (cfa, caller) := by
  refine (applyRules_eq_ok_iff hsp (separate_explicit hsize)).mpr
    ⟨resolveCfa_eq_valueIn target locs table.cfa ▸ hcfa, fun reg => ⟨?_, ?_⟩⟩
  · intro rule hmem
    obtain ⟨hreg, hruled, rfl⟩ := mem_explicit_iff.mp hmem
    simpa only [if_pos (And.intro hreg hruled)] using h reg
  · intro habsent
    have hnone : ¬(reg < table.numRegs ∧ table.ruleOf reg ≠ .sameValue) := by
      rintro ⟨hreg, hruled⟩
      exact habsent _ (mem_explicit_iff.mpr ⟨hreg, hruled, rfl⟩)
    simpa only [if_neg hnone] using h reg

end RuleTable

theorem Locations.put_comm {first second : Column} (h : first ≠ second) (locs : Locations)
    (loc other : Location) :
    (locs.put first loc).put second other = (locs.put second other).put first loc := by
  apply Vector.ext
  intro reg hreg
  simp only [Locations.put, Vector.getElem_setIfInBounds]
  grind

/-! ## Places below the CFA -/

theorem placed_cfaRelative {reg : Column} (h : target.arch.isFp reg = false) (offset : Int64) :
    placed target locs cfa reg (.cfaRelative offset) =
      .ok (.memory (atCfa target cfa offset) false) := by
  rw [← h]
  rfl

/-- What lies below a masked sum is where the sum began. -/
theorem atCfa_sum {word length : UInt64} (h : word ≤ target.arch.wordMask) :
    atCfa target ((word + length) &&& target.arch.wordMask) (-length.toInt64) = word := by
  have hsum : addOffset (word + length) (-length.toInt64) = word := by
    rw [addOffset_neg_toInt64]
    exact UInt64.add_sub_cancel word length
  unfold atCfa
  rw [Arch.addOffset_masked, hsum]
  exact Arch.and_wordMask (UInt64.le_iff_toNat_le.mp h)

namespace Heuristic

namespace FramePointer

theorem inRecord_eq_some {arch : Arch} {fp length addr : UInt64}
    (h : inRecord arch fp length = some addr) :
    addr = fp + length ∧ addr ≤ arch.wordMask ∧ fp ≤ addr := by
  obtain ⟨hsum, hle⟩ := Option.filter_eq_some_iff.mp h
  have hnat := toNat_checkedAdd hsum
  refine ⟨?_, by simpa using hle, UInt64.le_iff_toNat_le.mpr (by omega)⟩
  unfold checkedAdd at hsum
  split at hsum
  · exact (Option.some.inj hsum).symm
  · cases hsum

/-- The rules of a record find its two words. -/
theorem AtRecord.places {fpReg : Column} {fp slot : UInt64}
    (hrecord : AtRecord target frame fpReg fp slot cfa) :
    (fp + 2 * target.arch.wordSize) &&& target.arch.wordMask = cfa ∧
      atCfa target cfa (-(2 * target.arch.wordSize).toInt64) = fp ∧
      atCfa target cfa (-target.arch.wordSize.toInt64) = slot := by
  obtain ⟨hslot, hslot_le, hfp_le⟩ := inRecord_eq_some hrecord.slot_eq
  obtain ⟨hcfa, hcfa_le, -⟩ := inRecord_eq_some hrecord.cfa_eq
  have hmasked : (fp + 2 * target.arch.wordSize) &&& target.arch.wordMask = cfa := by
    rw [← hcfa]
    exact Arch.and_wordMask (UInt64.le_iff_toNat_le.mp hcfa_le)
  have hsum : slot + target.arch.wordSize = fp + 2 * target.arch.wordSize := by
    rw [hslot]
    grind
  refine ⟨hmasked, ?_, ?_⟩
  · rw [← hmasked]
    exact atCfa_sum (UInt64.le_trans hfp_le hslot_le)
  · rw [← hmasked, ← hsum]
    exact atCfa_sum hslot_le

theorem applyRules_caller (harch : target.arch.KeepsApart) {fpReg : Column} {fp slot : UInt64}
    (hrecord : AtRecord target frame fpReg fp slot cfa) :
    applyRules target frame.locs (target.arch.recordTable fpReg).cfa
        (target.arch.recordTable fpReg).explicit =
      .ok (cfa, (caller target.arch frame fpReg fp slot cfa).locs) := by
  obtain ⟨hfp, hfp_ne_ra, hfp_ne_sp⟩ := harch.fp fpReg hrecord.column
  obtain ⟨hmasked, hfp_place, hslot_place⟩ := hrecord.places
  have hcfa : resolveCfa target frame.locs (target.arch.recordTable fpReg).cfa = .ok cfa := by
    simp only [Arch.recordTable, resolveCfa, hrecord.pointer, ok_bind, addOffset_toInt64, hmasked,
      pure_eq_ok]
  have hfirst := (RuleTable.leads_default target frame.locs cfa).withRule hfp.lt
    (hfp.lt.trans_le harch.kept) (by simp)
    (placed_cfaRelative hfp.general (-(2 * target.arch.wordSize).toInt64))
  have hsecond := hfirst.withRule harch.ra.lt (harch.ra.lt.trans_le harch.kept) (by simp)
    (placed_cfaRelative harch.ra.general (-target.arch.wordSize.toInt64))
  rw [hfp_place, hslot_place, Locations.put_comm hfp_ne_sp.symm,
    Locations.put_comm harch.ra_ne_sp.symm] at hsecond
  exact RuleTable.Leads.applyRules hsecond (harch.sp.lt.trans_le harch.kept) harch.kept hcfa

end FramePointer

theorem PltStub.applyRules_caller (harch : target.arch.KeepsApart) {sp : UInt64}
    (hsp : (frame.locs.of target.arch.sp).read target target.arch.sp = .ok sp)
    (hle : sp ≤ target.arch.wordMask) :
    applyRules target frame.locs target.arch.stubTable.cfa target.arch.stubTable.explicit =
      .ok ((PltStub.caller target.arch frame sp).cfa,
        (PltStub.caller target.arch frame sp).locs) := by
  have hcfa : resolveCfa target frame.locs target.arch.stubTable.cfa =
      .ok ((sp + target.arch.wordSize) &&& target.arch.wordMask) := by
    simp only [Arch.stubTable, resolveCfa, hsp, ok_bind, addOffset_toInt64, pure_eq_ok]
  have hleads := (RuleTable.leads_default target frame.locs
    ((sp + target.arch.wordSize) &&& target.arch.wordMask)).withRule harch.ra.lt
    (harch.ra.lt.trans_le harch.kept) (by simp)
    (placed_cfaRelative harch.ra.general (-target.arch.wordSize.toInt64))
  rw [atCfa_sum hle, Locations.put_comm harch.ra_ne_sp.symm] at hleads
  exact RuleTable.Leads.applyRules hleads (harch.sp.lt.trans_le harch.kept) harch.kept hcfa

theorem LinkRegister.applyRules_caller (harch : target.arch.KeepsApart) {lr : Column}
    (hcfa : (frame.locs.of target.arch.sp).read target target.arch.sp = .ok cfa)
    (hle : cfa ≤ target.arch.wordMask) :
    applyRules target frame.locs (RuleTable.default target.arch).cfa
        (RuleTable.default target.arch).explicit =
      .ok (cfa, (LinkRegister.caller target.arch frame lr cfa).locs) := by
  have hresolved : resolveCfa target frame.locs (RuleTable.default target.arch).cfa = .ok cfa := by
    have hzero : addOffset cfa 0 = cfa := UInt64.add_zero cfa
    simp only [RuleTable.default, resolveCfa, hcfa, ok_bind, hzero,
      Arch.and_wordMask (UInt64.le_iff_toNat_le.mp hle), pure_eq_ok]
  exact (RuleTable.leads_default target frame.locs cfa).applyRules
    (harch.sp.lt.trans_le harch.kept) harch.kept hresolved

/-- Whatever a heuristic finds, the rules of its row find too: those of a
record at the frame pointer, those of a linkage stub, and none at all. -/
theorem steps_are_rows (harch : target.arch.KeepsApart) (hwords : frame.HoldsWords target) :
    (∀ unwound, FramePointer.step target frame = .ok (some unwound) →
      unwound.ipColumn = target.arch.returnAddress ∧
      ∃ fpReg, target.arch.fp = some fpReg ∧
        applyRules target frame.locs (target.arch.recordTable fpReg).cfa
          (target.arch.recordTable fpReg).explicit = .ok (unwound.cfa, unwound.locs)) ∧
    (∀ unwound, PltStub.step target frame = .ok (some unwound) →
      unwound.ipColumn = target.arch.returnAddress ∧
      applyRules target frame.locs target.arch.stubTable.cfa target.arch.stubTable.explicit =
        .ok (unwound.cfa, unwound.locs)) ∧
    ∀ unwound, LinkRegister.step target frame = .ok (some unwound) →
      target.arch.lr = some unwound.ipColumn ∧
      applyRules target frame.locs (RuleTable.default target.arch).cfa
          (RuleTable.default target.arch).explicit = .ok (unwound.cfa, unwound.locs) := by
  refine ⟨?_, ?_, ?_⟩
  · intro unwound hstep
    obtain ⟨fpReg, fp, slot, cfa, hrecord, rfl⟩ := FramePointer.step_eq_some_iff.mp hstep
    exact ⟨rfl, fpReg, hrecord.column, FramePointer.applyRules_caller harch hrecord⟩
  · intro unwound hstep
    obtain ⟨-, sp, -, -, hsp, rfl⟩ := PltStub.step_eq_some_iff.mp hstep
    exact ⟨rfl, PltStub.applyRules_caller harch hsp
      (hwords target.arch.sp sp harch.sp.general hsp)⟩
  · intro unwound hstep
    obtain ⟨lr, cfa, hlr, -, hcfa, rfl⟩ := LinkRegister.step_eq_some_iff.mp hstep
    exact ⟨hlr, LinkRegister.applyRules_caller harch hcfa
      (hwords target.arch.sp cfa harch.sp.general hcfa)⟩

/-- A stack at the end of the words: every word of memory is its own address,
and the frame pointer was spilled. -/
def edgeTarget : Target where
  arch := { Arch.x86 with lr := some 3, pltEntry := some [none] }
  loadWord addr := .ok addr
  loadReg _ := .ok 0xfffffffc
  loadFpReg reg := .error (.badRegister (UInt64.ofNat reg))

@[inherit_doc edgeTarget]
def edgeFrame : Frame where
  ip := 0x1000
  locs := (Locations.live edgeTarget.arch).put 5 (.memory 0xfffffff4 false)

theorem edgeFrame_holdsWords : edgeFrame.HoldsWords edgeTarget := by
  have harch : edgeTarget.arch.Orderly := by constructor <;> decide
  have hnarrow : edgeTarget.Narrow := by
    rintro reg value - - hread
    cases hread
    decide
  have hspill : (Location.memory 0xfffffff4 false).Within edgeTarget.arch := by
    unfold Location.Within
    decide
  have hlocs : edgeFrame.locs.Within edgeTarget.arch :=
    (Locations.Within.live harch).put harch (by decide) hspill fun _ => rfl
  exact fun reg value _ hread => (hlocs.places reg).read_le harch hnarrow hread

/-- The record ends at the last word, and behind the return address of a stub
the words begin anew. -/
theorem steps_are_rows_at_edge :
    edgeTarget.arch.KeepsApart ∧ edgeFrame.HoldsWords edgeTarget ∧
    (∃ unwound, FramePointer.step edgeTarget edgeFrame = .ok (some unwound) ∧
      applyRules edgeTarget edgeFrame.locs (edgeTarget.arch.recordTable 5).cfa
        (edgeTarget.arch.recordTable 5).explicit = .ok (0xfffffffc, unwound.locs)) ∧
    (∃ unwound, PltStub.step edgeTarget edgeFrame = .ok (some unwound) ∧
      applyRules edgeTarget edgeFrame.locs edgeTarget.arch.stubTable.cfa
        edgeTarget.arch.stubTable.explicit = .ok (0, unwound.locs)) ∧
    ∃ unwound, LinkRegister.step edgeTarget edgeFrame = .ok (some unwound) ∧
      unwound.ipColumn = 3 ∧
      applyRules edgeTarget edgeFrame.locs (RuleTable.default edgeTarget.arch).cfa
        (RuleTable.default edgeTarget.arch).explicit = .ok (0xfffffffc, unwound.locs) := by
  have harch : edgeTarget.arch.KeepsApart := by
    have hgeneral : ∀ reg < 9, edgeTarget.arch.General reg := fun reg hreg =>
      ⟨hreg, Arch.isFp_eq_false (by decide) reg⟩
    refine ⟨by decide, hgeneral 4 (by decide), hgeneral 8 (by decide), by decide, ?_⟩
    rintro reg ⟨⟩
    exact ⟨hgeneral 5 (by decide), by decide, by decide⟩
  obtain ⟨hfp, hplt, hlr⟩ := steps_are_rows harch edgeFrame_holdsWords
  refine ⟨harch, edgeFrame_holdsWords, ?_, ?_, ?_⟩
  · have hstep : FramePointer.step edgeTarget edgeFrame =
        .ok (some (FramePointer.caller edgeTarget.arch edgeFrame 5 0xfffffff4 0xfffffff8
          0xfffffffc)) := by
      rfl
    obtain ⟨-, fpReg, hcolumn, hrules⟩ := hfp _ hstep
    cases hcolumn
    exact ⟨_, hstep, hrules⟩
  · have hstep : PltStub.step edgeTarget edgeFrame =
        .ok (some (PltStub.caller edgeTarget.arch edgeFrame 0xfffffffc)) := by
      rfl
    exact ⟨_, hstep, (hplt _ hstep).2⟩
  · have hstep : LinkRegister.step edgeTarget edgeFrame =
        .ok (some (LinkRegister.caller edgeTarget.arch edgeFrame 3 0xfffffffc)) := by
      rfl
    exact ⟨_, hstep, rfl, (hlr _ hstep).2⟩

end Heuristic
end StackWalk
