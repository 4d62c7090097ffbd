import StackWalk.Cfi.RowAt
import StackWalk.Proofs.Cfi.Execution

/-!
# The tables of a program

Every table that a program has in effect, puts aside or takes back comes from
the one it began with, through changes of the CFA and of single columns.  What
each of these changes keeps holds of all tables of a run, and the column of the
return address stays as it was.
-/

namespace StackWalk

/-- The tables in effect and those put aside have the property. -/
structure AllTables (P : RuleTable → Prop) (row : Row) (ws : Workspace) : Prop where
  initial : P row.initial
  current : P row.current
  snapshots : ∀ table ∈ ws.snapshots, P table
  labels : ∀ entry ∈ ws.labels, P entry.2

namespace AllTables

variable {P : RuleTable → Prop} {row : Row} {ws after : Workspace} {table : RuleTable}

theorem start {arch : Arch} (hdefault : P (RuleTable.default arch)) (returnAddress : Column)
    (ws : Workspace) : AllTables P (Row.default arch returnAddress) ws.reset where
  initial := hdefault
  current := hdefault
  snapshots := by simp [Workspace.reset]
  labels := by simp [Workspace.reset]

theorem withCurrent (h : AllTables P row ws) (htable : P table) :
    AllTables P { row with current := table } ws :=
  { h with current := htable }

theorem push (h : AllTables P row ws) (hpush : ws.push row.current = .ok after) :
    AllTables P row after := by
  unfold Workspace.push at hpush
  split at hpush
  · cases hpush
    refine { h with snapshots := ?_ }
    intro table htable
    rcases List.mem_cons.mp htable with rfl | htable
    · exact h.current
    · exact h.snapshots table htable
  · cases hpush

theorem pop (h : AllTables P row ws) (hpop : ws.pop = .ok (table, after)) :
    AllTables P { row with current := table } after := by
  unfold Workspace.pop at hpop
  cases hsnapshots : ws.snapshots with
  | nil =>
      rw [hsnapshots] at hpop
      cases hpop
  | cons top rest =>
      have htables := h.snapshots
      rw [hsnapshots] at hpop htables
      cases hpop
      exact ⟨h.initial, htables _ List.mem_cons_self,
        fun table htable => htables table (List.mem_cons_of_mem _ htable), h.labels⟩

theorem label {name : UInt64} (h : AllTables P row ws)
    (hlabel : ws.label name row.current = .ok after) : AllTables P row after := by
  unfold Workspace.label at hlabel
  split at hlabel
  · cases hlabel
    refine { h with labels := ?_ }
    intro entry hentry
    obtain ⟨old, hold, rfl⟩ := List.mem_map.mp hentry
    split
    · exact h.current
    · exact h.labels old hold
  · split at hlabel
    · cases hlabel
      refine { h with labels := ?_ }
      intro entry hentry
      rcases List.mem_append.mp hentry with hentry | hentry
      · exact h.labels entry hentry
      · obtain rfl := List.mem_singleton.mp hentry
        exact h.current
    · cases hlabel

theorem labeled {name : UInt64} (h : AllTables P row ws)
    (hlabeled : ws.labeled name = .ok table) : AllTables P { row with current := table } ws := by
  unfold Workspace.labeled at hlabeled
  split at hlabeled
  · rename_i entry hfound
    cases hlabeled
    exact h.withCurrent (h.labels _ (List.mem_of_find?_eq_some hfound))
  · cases hlabeled

end AllTables

namespace Cfi

/-- Each change that an instruction can make to a table keeps the property. -/
structure KeptByChanges (arch : Arch) (P : RuleTable → Prop) : Prop where
  cfaRegister : ∀ table register offset, P table → register < arch.numRegs →
    P { table with cfa := .registerOffset register offset }
  cfaOffset : ∀ table register before offset, P table →
    table.cfa = .registerOffset register before →
    P { table with cfa := .registerOffset register offset }
  cfaExpression : ∀ table addr, P table → P { table with cfa := .expression addr }
  set : ∀ table after reg rule, P table → table.set reg rule = .ok after →
    (∀ source, rule = .inRegister source → source < arch.numRegs) → P after
  restore : ∀ initial table after reg rule, P initial → P table → initial.get reg = .ok rule →
    table.set reg rule = .ok after → P after

/-- The column of the return address stays, and what all tables had they still
have. -/
structure KeepsTables (P : RuleTable → Prop) (before after : Execution) : Prop where
  returnAddress : after.row.returnAddress = before.row.returnAddress
  tables : AllTables P before.row before.workspace → AllTables P after.row after.workspace

instance (P : RuleTable → Prop) : IsPreorder Execution (KeepsTables P) where
  refl _ := ⟨rfl, id⟩
  trans _ _ _ h₁ h₂ := ⟨h₂.returnAddress.trans h₁.returnAddress, h₂.tables ∘ h₁.tables⟩

variable {arch : Arch} {P : RuleTable → Prop}

theorem modifyCurrent_keepsTables {change : RuleTable → Except UnwindError RuleTable}
    {exec : Execution} (hchange : ∀ after, AllTables P exec.row exec.workspace →
      change exec.row.current = .ok after → P after) :
    KeepsTables P exec ((modifyCurrent change).perform exec).2 := by
  unfold Action.perform
  rw [modifyCurrent_apply]
  cases htable : change exec.row.current with
  | error e => exact ⟨rfl, id⟩
  | ok table => exact ⟨rfl, fun htables => htables.withCurrent (hchange table htables htable)⟩

theorem setRule_keepsTables (hkept : KeptByChanges arch P) {reg : UInt64} {rule : RegisterRule}
    (hrule : ∀ source, rule = .inRegister source → source < arch.numRegs) :
    (setRule reg rule).Keeps (KeepsTables P) :=
  fun _ => modifyCurrent_keepsTables fun after htables hset =>
    hkept.set _ after reg rule htables.current hset hrule

theorem setCfa_keepsTables {rule : CfaRule}
    (hrule : ∀ table, P table → P { table with cfa := rule }) :
    (setCfa rule).Keeps (KeepsTables P) := by
  intro exec
  apply modifyCurrent_keepsTables
  intro after htables h
  cases h
  exact hrule _ htables.current

theorem setCfaRegister_keepsTables (hkept : KeptByChanges arch P) {register : Column}
    (hregister : register < arch.numRegs) :
    (modifyCurrent (setCfaRegister register)).Keeps (KeepsTables P) := by
  intro exec
  apply modifyCurrent_keepsTables
  intro after htables h
  unfold setCfaRegister at h
  split at h <;> cases h
  exact hkept.cfaRegister _ _ _ htables.current hregister

theorem setCfaOffset_keepsTables (hkept : KeptByChanges arch P) (offset : Int64) :
    (modifyCurrent (setCfaOffset offset)).Keeps (KeepsTables P) := by
  intro exec
  apply modifyCurrent_keepsTables
  intro after htables h
  unfold setCfaOffset at h
  split at h <;> cases h
  rename_i hcfa
  exact hkept.cfaOffset _ _ _ _ htables.current hcfa

theorem saveWindow_keepsTables (hkept : KeptByChanges arch P) (wordSize : UInt64)
    (regs : List Nat) : (saveWindow wordSize regs).Keeps (KeepsTables P) := by
  induction regs with
  | nil => exact .pure ()
  | cons reg rest ih =>
      refine .bind (setRule_keepsTables hkept ?_) fun _ => ih
      rintro _ ⟨⟩

theorem checkReg_bind_keepsTables {reg : UInt64} {f : Column → Action Execution Unit}
    (hf : ∀ column < arch.numRegs, (f column).Keeps (KeepsTables P)) :
    Action.Keeps (KeepsTables P) (liftM (arch.checkReg reg) >>= f) := by
  intro exec
  cases hcolumn : arch.checkReg reg with
  | error e => exact ⟨rfl, id⟩
  | ok column => exact hf column ((Arch.checkReg_eq_ok_iff.mp hcolumn).2 ▸
      (Arch.checkReg_eq_ok_iff.mp hcolumn).1) exec

theorem execute_keepsTables {factors : Factors} (hkept : KeptByChanges factors.arch P)
    (instruction : Instruction) : (execute factors instruction).Keeps (KeepsTables P) := by
  cases instruction with
  | setLoc addr => exact .of_modify fun exec => ⟨rfl, id⟩
  | advanceLoc form delta => exact .of_modify fun exec => ⟨rfl, id⟩
  | argsSize size => exact .of_modify fun exec => ⟨rfl, fun htables => { htables with }⟩
  | nop => exact .pure ()
  | defCfa reg offset =>
      exact checkReg_bind_keepsTables fun column hcolumn =>
        setCfa_keepsTables fun table htable => hkept.cfaRegister table _ _ htable hcolumn
  | defCfaFactored reg factored =>
      exact checkReg_bind_keepsTables fun column hcolumn =>
        setCfa_keepsTables fun table htable => hkept.cfaRegister table _ _ htable hcolumn
  | defCfaRegister reg =>
      exact checkReg_bind_keepsTables fun column hcolumn => setCfaRegister_keepsTables hkept hcolumn
  | defCfaOffset offset => exact setCfaOffset_keepsTables hkept _
  | defCfaOffsetFactored factored => exact setCfaOffset_keepsTables hkept _
  | defCfaExpression addr =>
      exact setCfa_keepsTables fun table htable => hkept.cfaExpression table addr htable
  | register reg source =>
      refine checkReg_bind_keepsTables fun column hcolumn => setRule_keepsTables hkept ?_
      rintro _ ⟨⟩
      exact hcolumn
  | restore form reg =>
      apply Action.Keeps.get_bind
      intro exec
      cases hrule : exec.row.initial.get reg with
      | error e => exact ⟨rfl, id⟩
      | ok rule =>
          have hset : KeepsTables P exec ((setRule reg rule).perform exec).2 :=
            modifyCurrent_keepsTables fun after htables hset =>
              hkept.restore _ _ after reg rule htables.initial htables.current hrule hset
          exact hset
  | rememberState =>
      apply Action.Keeps.get_bind
      intro exec
      cases hpush : exec.workspace.push exec.row.current with
      | error e => exact ⟨rfl, id⟩
      | ok ws => exact ⟨rfl, fun htables => htables.push hpush⟩
  | restoreState =>
      apply Action.Keeps.get_bind
      intro exec
      cases hpop : exec.workspace.pop with
      | error e => exact ⟨rfl, id⟩
      | ok popped => exact ⟨rfl, fun htables => htables.pop hpop⟩
  | windowSave =>
      simp only [execute]
      cases factors.arch.windowSave with
      | none => exact .throw _
      | some kind =>
          cases kind with
          | registerWindows => exact saveWindow_keepsTables hkept _ _
          | negateRaState => exact .of_modify fun exec => ⟨rfl, fun htables => { htables with }⟩
  | _ =>
      refine setRule_keepsTables hkept ?_
      rintro _ ⟨⟩

theorem run_keepsTables {factors : Factors} (hkept : KeptByChanges factors.arch P)
    (last : UInt64) (items : List (Except UnwindError Instruction)) :
    (run factors last items).Keeps (KeepsTables P) := by
  induction items with
  | nil => exact .pure ()
  | cons item rest ih =>
      apply Action.Keeps.get_bind
      intro exec
      split
      · exact Action.Keeps.bind (.lift item)
          (fun instruction => .bind (execute_keepsTables hkept instruction) fun _ => ih) exec
      · exact ⟨rfl, id⟩

theorem runEntry_keepsTables {target : Target} (hkept : KeptByChanges target.arch P) (fde : Fde)
    (ip : UInt64) (bases : PointerBases) :
    (runEntry target fde ip bases).Keeps (KeepsTables P) := by
  have hprogram (program : Span) (start last : UInt64) :
      (fde.cie.runProgram target bases program start last).Keeps (KeepsTables P) :=
    .bind (.of_modify fun _ => ⟨rfl, id⟩) fun _ => run_keepsTables hkept _ _
  refine .bind (hprogram _ _ _) fun _ => .bind (.of_modify ?_) fun _ => hprogram _ _ _
  exact fun exec => ⟨rfl, fun htables => { htables with initial := htables.current }⟩

/-- What holds of a table without rules of its own, and is kept by every change,
holds of the tables of each row. -/
theorem rowAt_keepsTables {target : Target} (hkept : KeptByChanges target.arch P)
    (hdefault : P (RuleTable.default target.arch)) {ws : Workspace} {fde : Fde} {ip : UInt64}
    {bases : PointerBases} {row : Row} (h : (rowAt target ws fde ip bases).1 = .ok row) :
    row.returnAddress = fde.cie.returnAddress ∧ P row.initial ∧ P row.current := by
  unfold rowAt at h
  dsimp only at h
  have hstart := AllTables.start hdefault fde.cie.returnAddress ws
  have hkeeps := runEntry_keepsTables hkept fde ip bases ⟨fde.start,
    { Row.default target.arch fde.cie.returnAddress with
      signalFrame := fde.cie.augmentation.signalFrame }, ws.reset⟩
  obtain ⟨_, -, rfl⟩ := map_eq_ok_iff.mp h
  have htables := hkeeps.tables { hstart with }
  exact ⟨hkeeps.returnAddress, htables.initial, htables.current⟩

end Cfi
end StackWalk
