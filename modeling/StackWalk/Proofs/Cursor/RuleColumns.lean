import StackWalk.Proofs.Cfi.Tables
import StackWalk.Proofs.Cursor.CacheUse

/-!
# The columns that have rules

A row starts out with a table for the registers of the architecture, and every
table that a program makes, puts aside or takes back is made from one.  So the
rules of a frame are for columns of the register file, whether they are
computed or come from the cache.
-/

namespace StackWalk

/-! ## Tables for a register file -/

theorem RuleTable.numRegs_set {table after : RuleTable} {reg : UInt64} {rule : RegisterRule}
    (h : table.set reg rule = .ok after) : after.numRegs = table.numRegs := by
  unfold RuleTable.set at h
  split at h
  · cases h
    rfl
  · cases h

theorem RuleTable.mem_explicit_iff {table : RuleTable} {reg : Column} {rule : RegisterRule} :
    (reg, rule) ∈ table.explicit ↔
      reg < table.numRegs ∧ rule ≠ .sameValue ∧ table.ruleOf reg = rule := by
  unfold explicit
  rw [List.mem_filterMap]
  constructor
  · rintro ⟨other, hother, hentry⟩
    split at hentry
    · cases hentry
    · rename_i hruled
      cases hentry
      exact ⟨List.mem_range.mp hother, hruled, rfl⟩
  · rintro ⟨hreg, hruled, rfl⟩
    refine ⟨reg, List.mem_range.mpr hreg, ?_⟩
    split
    · exact absurd ‹_› hruled
    · rfl

/-- The tables in effect and put aside are for a register file of `size`
columns. -/
structure Sized (size : Column) (row : Row) (ws : Workspace) : Prop where
  initial : row.initial.numRegs = size
  current : row.current.numRegs = size
  snapshots : ∀ table ∈ ws.snapshots, table.numRegs = size
  labels : ∀ entry ∈ ws.labels, entry.2.numRegs = size

namespace Sized

variable {size : Column} {row : Row} {ws after : Workspace} {table : RuleTable}

theorem iff_allTables : Sized size row ws ↔ AllTables (·.numRegs = size) row ws :=
  ⟨fun h => ⟨h.initial, h.current, h.snapshots, h.labels⟩,
    fun h => ⟨h.initial, h.current, h.snapshots, h.labels⟩⟩

theorem start (arch : Arch) (returnAddress : Column) (ws : Workspace) :
    Sized arch.numRegs (Row.default arch returnAddress) ws.reset :=
  iff_allTables.mpr (@AllTables.start (·.numRegs = arch.numRegs) arch rfl returnAddress ws)

theorem withCurrent (h : Sized size row ws) (htable : table.numRegs = size) :
    Sized size { row with current := table } ws :=
  { h with current := htable }

theorem label {name : UInt64} (h : Sized size row ws)
    (hlabel : ws.label name row.current = .ok after) : Sized size row after :=
  iff_allTables.mpr ((iff_allTables.mp h).label hlabel)

theorem labeled {name : UInt64} (h : Sized size row ws) (hlabeled : ws.labeled name = .ok table) :
    Sized size { row with current := table } ws :=
  iff_allTables.mpr ((iff_allTables.mp h).labeled hlabeled)

end Sized

/-! ## Call frame programs -/

namespace Cfi

theorem keptByChanges_numRegs (arch : Arch) (size : Column) :
    KeptByChanges arch (·.numRegs = size) where
  cfaRegister _ _ _ h _ := h
  cfaOffset _ _ _ _ h _ := h
  cfaExpression _ _ h := h
  set _ _ _ _ h hset _ := (RuleTable.numRegs_set hset).trans h
  restore _ _ _ _ _ _ h _ hset := (RuleTable.numRegs_set hset).trans h

theorem numRegs_rowAt {target : Target} {ws : Workspace} {fde : Fde} {ip : UInt64}
    {bases : PointerBases} {row : Row} (h : (rowAt target ws fde ip bases).1 = .ok row) :
    row.current.numRegs = target.arch.numRegs :=
  (rowAt_keepsTables (keptByChanges_numRegs target.arch target.arch.numRegs) rfl h).2.2

end Cfi

/-! ## Regions -/

namespace Region

theorem execute_sized {arch : Arch} {row : Row} {ws : Workspace} {effect : RegionEffect}
    {size : Column} {after : Row × Workspace} (hsized : Sized size row ws)
    (h : execute arch row ws effect = .ok after) : Sized size after.1 after.2 := by
  cases effect with
  | defCfa register offset =>
      obtain ⟨column, -, hafter⟩ := bind_eq_ok_iff.mp h
      cases hafter
      exact hsized.withCurrent hsized.current
  | saveReg register target =>
      obtain ⟨column, -, h⟩ := bind_eq_ok_iff.mp h
      obtain ⟨table, htable, hafter⟩ := bind_eq_ok_iff.mp h
      cases hafter
      exact hsized.withCurrent ((RuleTable.numRegs_set htable).trans hsized.current)
  | spill register offset =>
      obtain ⟨table, htable, hafter⟩ := bind_eq_ok_iff.mp h
      cases hafter
      exact hsized.withCurrent ((RuleTable.numRegs_set htable).trans hsized.current)
  | restore register =>
      obtain ⟨rule, -, h⟩ := bind_eq_ok_iff.mp h
      obtain ⟨table, htable, hafter⟩ := bind_eq_ok_iff.mp h
      cases hafter
      exact hsized.withCurrent ((RuleTable.numRegs_set htable).trans hsized.current)
  | labelState name =>
      obtain ⟨labeled, hlabel, hafter⟩ := bind_eq_ok_iff.mp h
      cases hafter
      exact hsized.label hlabel
  | copyState name =>
      obtain ⟨table, htable, hafter⟩ := bind_eq_ok_iff.mp h
      cases hafter
      exact hsized.labeled htable
  | stop => cases h

theorem run_sized {arch : Arch} {predicates : Predicates} {ops : List RegionOp} {row : Row}
    {ws : Workspace} {size : Column} {after : Row} (hsized : Sized size row ws)
    (h : (run arch predicates ops row ws).1 = .ok after) : after.current.numRegs = size := by
  induction ops generalizing row ws with
  | nil =>
      cases h
      exact hsized.current
  | cons op rest ih =>
      unfold run at h
      split at h
      · cases hstep : execute arch row ws op.effect with
        | error e =>
            rw [hstep] at h
            cases h
        | ok next =>
            rw [hstep] at h
            exact ih (execute_sized hsized hstep) h
      · exact ih hsized h

theorem numRegs_rowAt {arch : Arch} {ws : Workspace} {region : Region} {ip : UInt64}
    {predicates : Predicates} {row : Row}
    (h : (region.rowAt arch ws ip predicates).1 = .ok row) :
    row.current.numRegs = arch.numRegs := by
  unfold rowAt at h
  split at h
  · cases hcolumn : arch.checkColumn region.returnAddress with
    | error e =>
        rw [hcolumn] at h
        cases h
    | ok returnAddress =>
        rw [hcolumn] at h
        exact run_sized (Sized.start arch returnAddress ws) h
  · cases h

end Region

/-! ## Scripts -/

/-- The rules are for columns of the register file. -/
def Script.Fits (script : Script) (arch : Arch) : Prop :=
  ∀ entry ∈ script.rules, entry.1 < arch.numRegs

namespace Walk

variable {World Thread : Type} {space : AddressSpace World Thread} {walk : Walk World Thread}

theorem numRegs_rowIn {target : Target} {ws : Workspace} {info : ProcInfo} {ip : UInt64}
    {predicates : Predicates} {row : Row}
    (h : (rowIn target ws info ip predicates).1 = .ok row) :
    row.current.numRegs = target.arch.numRegs := by
  unfold rowIn at h
  split at h
  · cases h
  · exact Region.numRegs_rowAt h
  · split at h
    · cases h
    · split at h
      · exact Cfi.numRegs_rowAt h
      · cases h

theorem freshRules_fits {generation : UInt64} {key : CacheKey} {script : Script} {info : ProcInfo}
    (h : ((freshRules space generation key).perform walk).1 = .ok (script, info)) :
    script.Fits space.arch := by
  obtain ⟨-, target, ws, predicates, row, harch, hrow, rfl⟩ := freshRules_eq_ok h
  intro entry hentry
  have hsize : row.current.numRegs = space.arch.numRegs := by rw [numRegs_rowIn hrow, harch]
  exact hsize ▸ (RuleTable.mem_explicit_iff.mp hentry).1

/-- Rules from a cache whose scripts fit do so, and the cache goes on to have
only such. -/
theorem frameRules_fits
    (htrusted : walk.unwinder.Trusted fun entry => entry.script.Fits space.arch) :
    (∀ script info, ((frameRules space).perform walk).1 = .ok (script, info) →
      script.Fits space.arch) ∧
    ((frameRules space).perform walk).2.unwinder.UsedIn walk.unwinder.generation
      fun entry => entry.script.Fits space.arch := by
  obtain ⟨hrules, hused⟩ := frameRules_of_trusted (fun _ _ h => freshRules_fits h) htrusted
  refine ⟨?_, hused⟩
  intro script info hanswer
  rcases hrules with ⟨entry, hentry, -, hhit⟩ | hmiss
  · obtain ⟨rfl, rfl⟩ := Prod.mk.inj (Except.ok.inj (hhit.symm.trans hanswer))
    exact hentry
  · exact freshRules_fits (hmiss.symm.trans hanswer)

end Walk
end StackWalk
