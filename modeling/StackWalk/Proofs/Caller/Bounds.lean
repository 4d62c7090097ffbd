import StackWalk.Arch.Shipped
import StackWalk.Proofs.Cursor.Finding
import StackWalk.Proofs.Cursor.RuleColumns
import StackWalk.Proofs.Expression.Cells

/-!
# The bounds of a frame

A frame keeps to the target: its addresses and values are words of the target,
its registers are those that the target has, and a place is marked as that of a
floating-point image exactly for the columns that hold one.  Wherever a caller
comes from, its frame keeps to the target if the callee's does.
-/

namespace StackWalk

/-! ## Architectures -/

/-- The columns with a part in unwinding are general registers of the register
file, and only a target with the widest words has floating-point columns. -/
structure Arch.Orderly (arch : Arch) : Prop where
  kept : arch.numRegs ≤ maxColumns
  ip_lt : arch.ip < arch.numRegs
  sp_lt : arch.sp < arch.numRegs
  ra_lt : arch.returnAddress < arch.numRegs
  sp_general : arch.isFp arch.sp = false
  ra_general : arch.isFp arch.returnAddress = false
  fp : ∀ reg ∈ arch.fp, reg < arch.numRegs ∧ arch.isFp reg = false
  saved : ∀ layout ∈ arch.signalFrame, ∀ entry ∈ layout.registers, entry.1 < arch.numRegs
  wide : arch.wordMask = maxWord ∨ arch.fpEnd ≤ arch.fpStart

theorem Arch.orderly_of_shipped {arch : Arch} (h : arch ∈ shipped) : arch.Orderly := by
  simp only [shipped, List.mem_cons, List.not_mem_nil, or_false] at h
  rcases h with rfl | rfl | rfl <;> constructor <;> decide

theorem Arch.isFp_eq_false {arch : Arch} (h : arch.fpEnd ≤ arch.fpStart) (reg : Column) :
    arch.isFp reg = false := by
  simp only [isFp, Bool.and_eq_false_imp, decide_eq_true_eq, decide_eq_false_iff_not, not_lt]
  exact h.trans

/-! ## Locations -/

/-- The place is in a register of the target or at a word of it, the value a
word. -/
def Location.Within (arch : Arch) : Location → Prop
  | .lost => True
  | .register reg _ => reg < arch.numRegs
  | .memory addr _ => addr ≤ arch.wordMask
  | .value word => word ≤ arch.wordMask

/-- A place has this mark. -/
def Location.Marked (mark : Bool) : Location → Prop
  | .register _ fp => fp = mark
  | .memory _ fp => fp = mark
  | _ => True

/-- Every location keeps to the target.  Only the instruction pointer may be in
a place that is marked for another kind of register. -/
structure Locations.Within (arch : Arch) (locs : Locations) : Prop where
  places : ∀ reg, (locs.of reg).Within arch
  beyond : ∀ reg, arch.numRegs ≤ reg → locs.of reg = .lost
  marks : ∀ reg, reg ≠ arch.ip → (locs.of reg).Marked (arch.isFp reg)

variable {arch : Arch} {target : Target} {locs : Locations} {reg : Column} {loc : Location}

@[simp] theorem Location.within_withFp (fp : Bool) :
    (loc.withFp fp).Within arch ↔ loc.Within arch := by
  cases loc <;> rfl

@[simp] theorem Location.marked_withFp (fp : Bool) : (loc.withFp fp).Marked fp := by
  cases loc <;> simp [withFp, Marked]

namespace Locations

theorem Within.live (harch : arch.Orderly) : (live arch).Within arch := by
  have hbeyond : ∀ reg, arch.numRegs ≤ reg → (Locations.live arch).of reg = .lost := by
    intro reg hreg
    by_cases hkept : reg < maxColumns <;>
      simp [Locations.of, Locations.live, hkept, not_lt.mpr hreg]
  have hlive : ∀ reg < arch.numRegs,
      (Locations.live arch).of reg = .register reg (arch.isFp reg) := by
    intro reg hreg
    simp [Locations.of, Locations.live, hreg, hreg.trans_le harch.kept]
  constructor
  · intro reg
    rcases lt_or_ge reg arch.numRegs with hreg | hreg
    · simpa [hlive reg hreg, Location.Within] using hreg
    · simp [hbeyond reg hreg, Location.Within]
  · exact hbeyond
  · intro reg _
    rcases lt_or_ge reg arch.numRegs with hreg | hreg
    · simp [hlive reg hreg, Location.Marked]
    · simp [hbeyond reg hreg, Location.Marked]

theorem Within.put (h : locs.Within arch) (harch : arch.Orderly) (hreg : reg < arch.numRegs)
    (hloc : loc.Within arch) (hmark : reg ≠ arch.ip → loc.Marked (arch.isFp reg)) :
    (locs.put reg loc).Within arch := by
  have hself : (locs.put reg loc).of reg = loc := of_put_self (hreg.trans_le harch.kept)
  constructor
  · intro other
    by_cases hsame : reg = other
    · subst hsame
      rwa [hself]
    · rw [of_put_ne hsame]
      exact h.places other
  · intro other hother
    rw [of_put_ne (hreg.trans_le hother).ne]
    exact h.beyond other hother
  · intro other hother
    by_cases hsame : reg = other
    · subst hsame
      rw [hself]
      exact hmark hother
    · rw [of_put_ne hsame]
      exact h.marks other hother

end Locations

/-! ## Reading -/

/-- No general register holds more than a word of the target. -/
def Target.Narrow (target : Target) : Prop :=
  ∀ reg value, reg < target.arch.numRegs → target.arch.isFp reg = false →
    target.loadReg reg = .ok value → value ≤ target.arch.wordMask

theorem Target.readWord_le {addr word : UInt64} (h : target.readWord addr = .ok word) :
    word ≤ target.arch.wordMask := by
  obtain ⟨stored, -, hword⟩ := bind_eq_ok_iff.mp h
  cases hword
  exact Arch.and_wordMask_le _ _

theorem Location.Within.read_le (h : loc.Within target.arch) (harch : target.arch.Orderly)
    (hnarrow : target.Narrow) {value : UInt64} (hread : loc.read target reg = .ok value) :
    value ≤ target.arch.wordMask := by
  cases loc with
  | lost => cases hread
  | register source fp =>
      -- where a register may hold an image, every value is a word
      rcases harch.wide with hwide | hnone
      · rw [hwide, UInt64.le_iff_toNat_le]
        exact Nat.le_of_lt_succ value.toNat_lt
      · exact hnarrow source value h (Arch.isFp_eq_false hnone source) hread
  | memory addr fp => exact Target.readWord_le hread
  | value word =>
      cases hread
      exact h

/-! ## Rules -/

section Rules

variable (harch : target.arch.Orderly) (hnarrow : target.Narrow)
  (hlocs : locs.Within target.arch)

include harch hnarrow hlocs

theorem resolveCfa_le {rule : CfaRule} {cfa : UInt64}
    (h : resolveCfa target locs rule = .ok cfa) : cfa ≤ target.arch.wordMask := by
  cases rule with
  | registerOffset register offset =>
      obtain ⟨base, -, hcfa⟩ := bind_eq_ok_iff.mp h
      cases hcfa
      exact Arch.and_wordMask_le _ _
  | expression addr =>
      obtain ⟨result, hresult, hcfa⟩ := bind_eq_ok_iff.mp h
      have hwithin := Expression.evaluate_within hresult
      cases result with
      | address word | value word =>
          cases hcfa
          exact hwithin
      | register source => exact (hlocs.places source).read_le harch hnarrow hcfa

theorem resolveRule_within {cfa : UInt64} {rule : RegisterRule}
    (h : resolveRule target locs cfa reg rule = .ok loc) : loc.Within target.arch := by
  have hcfa : ∀ offset, atCfa target cfa offset ≤ target.arch.wordMask :=
    fun offset => Arch.and_wordMask_le _ _
  cases rule with
  | undefined =>
      cases h
      trivial
  | sameValue =>
      cases h
      exact hlocs.places reg
  | cfaRelative offset | valCfaRelative offset =>
      cases h
      exact hcfa offset
  | inRegister source =>
      cases h
      exact hlocs.places source
  | expression addr =>
      obtain ⟨result, hresult, hloc⟩ := bind_eq_ok_iff.mp h
      have hwithin := Expression.evaluate_within hresult
      cases result <;> cases hloc
      · exact hwithin
      · exact hlocs.places _
      · exact hwithin
  | valExpression addr =>
      obtain ⟨result, hresult, hloc⟩ := bind_eq_ok_iff.mp h
      have hwithin := Expression.evaluate_within hresult
      cases result with
      | address word | value word =>
          cases hloc
          exact hwithin
      | register source =>
          obtain ⟨word, hread, hword⟩ := bind_eq_ok_iff.mp hloc
          cases hword
          exact (hlocs.places source).read_le harch hnarrow hread

theorem resolveRules_within {cfa : UInt64} {rules : List (Column × RegisterRule)}
    {caller after : Locations} (hrules : ∀ entry ∈ rules, entry.1 < target.arch.numRegs)
    (hcaller : caller.Within target.arch)
    (h : resolveRules target locs cfa rules caller = .ok after) : after.Within target.arch := by
  induction rules generalizing caller with
  | nil =>
      cases h
      exact hcaller
  | cons entry rest ih =>
      obtain ⟨loc, hloc, hrest⟩ := bind_eq_ok_iff.mp h
      have hwithin := resolveRule_within harch hnarrow hlocs hloc
      refine ih (fun other hother => hrules other (List.mem_cons_of_mem _ hother)) ?_ hrest
      exact hcaller.put harch (hrules entry List.mem_cons_self) (by simpa using hwithin) (by simp)

theorem applyRules_within {cfaRule : CfaRule} {rules : List (Column × RegisterRule)}
    {cfa : UInt64} {caller : Locations} (hrules : ∀ entry ∈ rules, entry.1 < target.arch.numRegs)
    (h : applyRules target locs cfaRule rules = .ok (cfa, caller)) :
    cfa ≤ target.arch.wordMask ∧ caller.Within target.arch := by
  obtain ⟨found, hcfa, h⟩ := bind_eq_ok_iff.mp h
  obtain ⟨resolved, hresolved, h⟩ := bind_eq_ok_iff.mp h
  have hle := resolveCfa_le harch hnarrow hlocs hcfa
  have hwithin := resolveRules_within harch hnarrow hlocs hrules hlocs hresolved
  split at h <;> cases h
  · exact ⟨hle, hwithin⟩
  · exact ⟨hle, hwithin.put harch harch.sp_lt hle fun _ => trivial⟩

end Rules

/-! ## Heuristics -/

/-- The frame found keeps to the target. -/
structure Unwound.Within (arch : Arch) (unwound : Unwound) : Prop where
  cfa : unwound.cfa ≤ arch.wordMask
  locs : unwound.locs.Within arch

namespace Heuristic

variable {frame : Frame} {unwound : Unwound}
  (harch : target.arch.Orderly) (hnarrow : target.Narrow)
  (hlocs : frame.locs.Within target.arch)

theorem SignalFrame.savedLocations_within (harch : arch.Orderly) {context : UInt64}
    {registers : List (Column × UInt64)} (hlocs : locs.Within arch)
    (hregisters : ∀ entry ∈ registers, entry.1 < arch.numRegs) :
    (savedLocations arch context locs registers).Within arch := by
  induction registers generalizing locs with
  | nil => exact hlocs
  | cons entry rest ih =>
      refine ih ?_ fun other hother => hregisters other (List.mem_cons_of_mem _ hother)
      exact hlocs.put harch (hregisters entry List.mem_cons_self) (Arch.and_wordMask_le _ _)
        fun _ => rfl

include harch hlocs hnarrow

theorem SignalFrame.step_within (h : SignalFrame.step target frame = .ok (some unwound)) :
    unwound.Within target.arch := by
  obtain ⟨layout, sp, cfa, hlayout, -, hcfa, rfl⟩ := SignalFrame.step_eq_some_iff.mp h
  have hshape : target.arch.signalFrame = some layout :=
    (Option.filter_eq_some_iff.mp hlayout).1
  have hsaved : (savedLocations target.arch (sp + layout.contextOffset) frame.locs
      layout.registers).Within target.arch :=
    savedLocations_within harch hlocs (harch.saved layout hshape)
  exact ⟨(hsaved.places _).read_le harch hnarrow hcfa, hsaved⟩

theorem PltStub.step_within (h : PltStub.step target frame = .ok (some unwound)) :
    unwound.Within target.arch := by
  obtain ⟨pattern, sp, -, -, hsp, rfl⟩ := PltStub.step_eq_some_iff.mp h
  have hle := (hlocs.places _).read_le harch hnarrow hsp
  have hsaved : (frame.locs.put target.arch.returnAddress (.memory sp false)).Within
      target.arch :=
    hlocs.put harch harch.ra_lt hle fun _ => harch.ra_general.symm
  have hcfa := Arch.and_wordMask_le target.arch (sp + target.arch.wordSize)
  exact ⟨hcfa, hsaved.put harch harch.sp_lt hcfa fun _ => trivial⟩

theorem FramePointer.step_within (h : FramePointer.step target frame = .ok (some unwound)) :
    unwound.Within target.arch := by
  obtain ⟨fpReg, fp, slot, cfa, hrecord, rfl⟩ := FramePointer.step_eq_some_iff.mp h
  have hfp := (hlocs.places fpReg).read_le harch hnarrow hrecord.pointer
  have hslot : slot ≤ target.arch.wordMask := by
    simpa using (Option.filter_eq_some_iff.mp hrecord.slot_eq).2
  have hcfa : cfa ≤ target.arch.wordMask := by
    simpa using (Option.filter_eq_some_iff.mp hrecord.cfa_eq).2
  obtain ⟨hreg_lt, hreg_general⟩ := harch.fp fpReg hrecord.column
  have hfirst : (frame.locs.put fpReg (.memory fp false)).Within target.arch :=
    hlocs.put harch hreg_lt hfp fun _ => hreg_general.symm
  have hsecond : ((frame.locs.put fpReg (.memory fp false)).put target.arch.returnAddress
      (.memory slot false)).Within target.arch :=
    hfirst.put harch harch.ra_lt hslot fun _ => harch.ra_general.symm
  exact ⟨hcfa, hsecond.put harch harch.sp_lt hcfa fun _ => trivial⟩

theorem LinkRegister.step_within (h : LinkRegister.step target frame = .ok (some unwound)) :
    unwound.Within target.arch := by
  obtain ⟨lr, cfa, -, -, hcfa, rfl⟩ := LinkRegister.step_eq_some_iff.mp h
  have hle := (hlocs.places _).read_le harch hnarrow hcfa
  exact ⟨hle, hlocs.put harch harch.sp_lt hle fun _ => trivial⟩

end Heuristic

/-! ## The caller found -/

namespace Walk

theorem unwindByHeuristics_within {frame : Frame} {reason : UnwindError} {unwound : Unwound}
    (harch : target.arch.Orderly) (hnarrow : target.Narrow)
    (hlocs : frame.locs.Within target.arch)
    (h : unwindByHeuristics target frame reason = .ok unwound) : unwound.Within target.arch := by
  rcases unwindByHeuristics_cases h with hplt | hrecord | hlink
  · exact Heuristic.PltStub.step_within harch hnarrow hlocs hplt
  · exact Heuristic.FramePointer.step_within harch hnarrow hlocs hrecord
  · exact Heuristic.LinkRegister.step_within harch hnarrow hlocs hlink

end Walk
end StackWalk
