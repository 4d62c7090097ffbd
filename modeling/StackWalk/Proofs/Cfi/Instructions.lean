import Mathlib.Tactic
import StackWalk.Proofs.Cfi.Bracketed

/-!
# What one instruction can do

Almost every instruction works on the row alone, and either does all that it
is for or fails with nothing changed.  The exceptions are the two that put a
table aside and take it back, and the spilling of a register window, which
writes one column after the other.
-/

namespace StackWalk.Cfi

variable {factors : Factors} {move : UInt64 → UInt64}

/-! ## Changes of the row -/

/-- What is made of a row, or why nothing is.  The initial table stays. -/
structure RowChange where
  change : Row → Except UnwindError Row
  initial_eq {row next : Row} : change row = .ok next → next.initial = row.initial

namespace RowChange

def always (change : Row → Row) (h : ∀ row, (change row).initial = row.initial) : RowChange where
  change row := .ok (change row)
  initial_eq := by
    rintro row _ ⟨⟩
    exact h row

def never (e : UnwindError) : RowChange where
  change _ := .error e
  initial_eq := by
    rintro row _ ⟨⟩

/-- A change of the current table, for which the initial one can be looked at. -/
def ofCurrent (change : RuleTable → RuleTable → Except UnwindError RuleTable) : RowChange where
  change row := (change row.initial row.current).map fun table => { row with current := table }
  initial_eq := by
    intro row next h
    obtain ⟨table, -, rfl⟩ := map_eq_ok_iff.mp h
    rfl

end RowChange

/-- The action moves the location and changes the row, or fails with nothing
changed. -/
def Performs (action : Action Execution Unit) (move : UInt64 → UInt64)
    (change : RowChange) : Prop :=
  ∀ exec, action exec =
    match change.change exec.row with
    | .ok row => .ok () { exec with loc := move exec.loc, row := row }
    | .error e => .error e exec

namespace Performs

theorem of_initial {action : Action Execution Unit}
    {change : RuleTable → RuleTable → Except UnwindError RuleTable}
    (h : ∀ exec, action exec = modifyCurrent (change exec.row.initial) exec) :
    Performs action id (.ofCurrent change) := by
  intro exec
  rw [h, modifyCurrent_apply]
  simp only [RowChange.ofCurrent]
  cases change exec.row.initial exec.row.current <;> rfl

theorem modifyCurrent (change : RuleTable → Except UnwindError RuleTable) :
    Performs (Cfi.modifyCurrent change) id (.ofCurrent fun _ => change) :=
  of_initial fun _ => rfl

theorem lift_bind {α : Type} (given : Except UnwindError α)
    (f : α → RuleTable → Except UnwindError RuleTable) :
    ∃ change, Performs (liftM given >>= fun a => Cfi.modifyCurrent (f a)) id change := by
  cases given with
  | ok a => exact ⟨_, modifyCurrent (f a)⟩
  | error e => exact ⟨.never e, fun _ => rfl⟩

end Performs

/-- Whether the instruction spills a register window. -/
def Factors.spills (factors : Factors) (instruction : Instruction) : Bool :=
  instruction = .windowSave && factors.arch.windowSave = some .registerWindows

theorem execute_performs {instruction : Instruction} (hplain : instruction.isBracket = false)
    (hwhole : factors.spills instruction = false) :
    ∃ change, Performs (execute factors instruction)
      (instruction.locAfter factors.codeAlign) change := by
  have hcurrent (change : RuleTable → Except UnwindError RuleTable) :
      ∃ row, Performs (modifyCurrent change) id row := ⟨_, .modifyCurrent change⟩
  have hrule (reg : UInt64) (rule : RegisterRule) :
      ∃ row, Performs (setRule reg rule) id row := ⟨_, .modifyCurrent _⟩
  cases instruction with
  | setLoc | advanceLoc | nop => exact ⟨.always id fun _ => rfl, fun _ => rfl⟩
  | argsSize size =>
      exact ⟨.always (fun row => { row with argsSize := size }) fun _ => rfl, fun _ => rfl⟩
  | defCfa reg offset =>
      exact Performs.lift_bind _ fun register table =>
        .ok { table with cfa := .registerOffset register offset.toInt64 }
  | defCfaFactored reg factored =>
      exact Performs.lift_bind _ fun register table =>
        .ok { table with cfa := .registerOffset register (factors.scaleSigned factored) }
  | defCfaRegister reg => exact Performs.lift_bind _ setCfaRegister
  | register reg source =>
      exact Performs.lift_bind _ fun column table => table.set reg (.inRegister column)
  | defCfaExpression addr => exact hcurrent fun table => .ok { table with cfa := .expression addr }
  | restore form reg =>
      refine ⟨.ofCurrent fun initial table => do table.set reg (← initial.get reg),
        .of_initial fun exec => ?_⟩
      simp only [execute, Action.get_bind_apply]
      cases exec.row.initial.get reg <;> rfl
  | rememberState | restoreState => cases hplain
  | windowSave =>
      have hkind : factors.arch.windowSave ≠ some .registerWindows := by
        simpa [Factors.spills] using hwhole
      simp only [execute]
      cases hsave : factors.arch.windowSave with
      | none => exact ⟨.never _, fun _ => rfl⟩
      | some kind =>
          cases kind with
          | registerWindows => exact absurd hsave hkind
          | negateRaState =>
              exact ⟨.always (fun row => { row with raSigned := !row.raSigned }) fun _ => rfl,
                fun _ => rfl⟩
  | defCfaOffset offset => exact hcurrent (setCfaOffset offset.toInt64)
  | defCfaOffsetFactored factored => exact hcurrent (setCfaOffset (factors.scaleSigned factored))
  | _ => exact hrule _ _

/-! ## Register windows -/

/-- The table with a rule for every listed column, saved from the CFA on in the
order of the window. -/
def spill (wordSize : UInt64) (regs : List Nat) (table : RuleTable) : RuleTable :=
  regs.foldl (fun table reg =>
    table.withRule reg (.cfaRelative (UInt64.ofNat (reg - 16) * wordSize).toInt64)) table

/-- The execution with another current table. -/
def Execution.withCurrent (exec : Execution) (table : RuleTable) : Execution :=
  { exec with row := { exec.row with current := table } }

/-- Columns are spilled up to the first that the table does not have. -/
theorem saveWindow_apply (wordSize : UInt64) {regs : List Nat} (hregs : ∀ reg ∈ regs, reg < 2 ^ 64)
    (exec : Execution) :
    saveWindow wordSize regs exec =
      match regs.find? (exec.row.current.numRegs ≤ ·) with
      | none => .ok () (exec.withCurrent (spill wordSize regs exec.row.current))
      | some reg =>
          .error (.badRegister (UInt64.ofNat reg)) (exec.withCurrent
            (spill wordSize (regs.takeWhile (· < exec.row.current.numRegs)) exec.row.current)) := by
  induction regs generalizing exec with
  | nil => rfl
  | cons reg rest ih =>
      have hreg : (UInt64.ofNat reg).toNat = reg :=
        UInt64.toNat_ofNat_of_lt' (hregs reg List.mem_cons_self)
      have hrest := ih fun other hother => hregs other (List.mem_cons_of_mem _ hother)
      unfold saveWindow setRule
      rw [Action.bind_apply, modifyCurrent_apply, RuleTable.set, hreg]
      by_cases hlt : reg < exec.row.current.numRegs
      · rw [if_pos hlt, List.find?_cons_of_neg (by simpa using hlt),
          List.takeWhile_cons_of_pos (by simpa using hlt)]
        exact hrest _
      · rw [if_neg hlt, List.find?_cons_of_pos (by simpa using hlt),
          List.takeWhile_cons_of_neg (by simpa using hlt)]
        rfl

theorem initial_of_saveWindow {wordSize : UInt64} {regs : List Nat}
    (hregs : ∀ reg ∈ regs, reg < 2 ^ 64) {exec after : Execution}
    (h : saveWindow wordSize regs exec = .ok () after) : after.row.initial = exec.row.initial := by
  rw [saveWindow_apply wordSize hregs] at h
  split at h <;> cases h
  rfl

theorem windowRegisters_lt : ∀ reg ∈ windowRegisters, reg < 2 ^ 64 := by
  decide

/-! ## What every instruction leaves alone -/

theorem execute_remember (exec : Execution) :
    execute factors .rememberState exec =
      match exec.workspace.push exec.row.current with
      | .ok ws => .ok () { exec with workspace := ws }
      | .error e => .error e exec := by
  simp only [execute, Action.get_bind_apply]
  cases exec.workspace.push exec.row.current <;> rfl

theorem execute_restore (exec : Execution) :
    execute factors .restoreState exec =
      match exec.workspace.pop with
      | .ok (table, ws) => .ok () { exec.withCurrent table with workspace := ws }
      | .error e => .error e exec := by
  simp only [execute, Action.get_bind_apply]
  cases exec.workspace.pop <;> rfl

/-- How an instruction works. -/
inductive Working (factors : Factors) : Instruction → Prop
  | remembers : Working factors .rememberState
  | restores : Working factors .restoreState
  | spills (hkind : factors.arch.windowSave = some .registerWindows) :
      Working factors .windowSave
  | performs {instruction : Instruction} {move : UInt64 → UInt64} {change : RowChange}
      (h : Performs (execute factors instruction) move change) : Working factors instruction

theorem working (factors : Factors) (instruction : Instruction) :
    Working factors instruction := by
  cases hplain : instruction.isBracket with
  | true =>
      cases instruction with
      | rememberState => exact .remembers
      | restoreState => exact .restores
      | _ => cases hplain
  | false =>
      cases hspills : factors.spills instruction with
      | false =>
          obtain ⟨change, hperforms⟩ := execute_performs hplain hspills
          exact .performs hperforms
      | true =>
          obtain ⟨rfl, hkind⟩ : instruction = .windowSave ∧
              factors.arch.windowSave = some .registerWindows := by
            simpa [Factors.spills] using hspills
          exact .spills hkind

/-- Between brackets the tables put aside make no difference. -/
theorem execute_withWorkspace (factors : Factors) {instruction : Instruction}
    (hplain : instruction.isBracket = false) (exec : Execution) (ws : Workspace) :
    execute factors instruction { exec with workspace := ws } =
      match execute factors instruction exec with
      | .ok _ after => .ok () { after with workspace := ws }
      | .error e after => .error e { after with workspace := ws } := by
  cases working factors instruction with
  | remembers | restores => cases hplain
  | spills hkind =>
      simp only [execute, hkind]
      rw [saveWindow_apply _ windowRegisters_lt, saveWindow_apply _ windowRegisters_lt]
      dsimp only
      cases windowRegisters.find? (exec.row.current.numRegs ≤ ·) <;> rfl
  | @performs _ _ change hperforms =>
      rw [hperforms, hperforms exec]
      cases change.change exec.row <;> rfl

theorem workspace_of_execute {instruction : Instruction}
    (hplain : instruction.isBracket = false) {exec after : Execution}
    (h : execute factors instruction exec = .ok () after) :
    after.workspace = exec.workspace := by
  have hsame := execute_withWorkspace factors hplain exec exec.workspace
  rw [h] at hsame
  injection hsame with _ hafter
  rw [hafter]

theorem initial_of_execute {instruction : Instruction} {exec after : Execution}
    (h : execute factors instruction exec = .ok () after) :
    after.row.initial = exec.row.initial := by
  cases working factors instruction with
  | remembers =>
      rw [execute_remember] at h
      split at h <;> cases h
      rfl
  | restores =>
      rw [execute_restore] at h
      split at h <;> cases h
      rfl
  | spills hkind =>
      simp only [execute, hkind] at h
      exact initial_of_saveWindow windowRegisters_lt h
  | performs hperforms =>
      rw [hperforms exec] at h
      split at h <;> cases h
      exact RowChange.initial_eq _ ‹_›

/-! ## Runs -/

variable {last : UInt64} {exec : Execution}

theorem run_past (h : ¬exec.loc ≤ last) (items : List (Except UnwindError Instruction)) :
    run factors last items exec = .ok () exec := by
  cases items with
  | nil => rfl
  | cons item rest =>
      unfold run
      rw [Action.get_bind_apply, if_neg h]
      rfl

theorem run_cons (h : exec.loc ≤ last) (item : Except UnwindError Instruction)
    (rest : List (Except UnwindError Instruction)) :
    run factors last (item :: rest) exec =
      match item with
      | .ok instruction => (execute factors instruction >>= fun _ => run factors last rest) exec
      | .error e => .error e exec := by
  conv_lhs => unfold run
  rw [Action.get_bind_apply, if_pos h]
  cases item <;> rfl

theorem ok_of_run_cons (h : exec.loc ≤ last) {item : Except UnwindError Instruction}
    {rest : List (Except UnwindError Instruction)} {after : Execution}
    (hrun : run factors last (item :: rest) exec = .ok () after) :
    ∃ instruction next, item = .ok instruction ∧ execute factors instruction exec = .ok () next ∧
      run factors last rest next = .ok () after := by
  rw [run_cons h] at hrun
  cases item with
  | error e => cases hrun
  | ok instruction =>
      obtain ⟨_, next, hexec, hrest⟩ := Action.ok_of_bind hrun
      exact ⟨instruction, next, rfl, hexec, hrest⟩

/-- Run to an end, a part of a program is followed by the rest of it. -/
theorem run_append (first second : List (Except UnwindError Instruction)) :
    run factors last (first ++ second) exec =
      (run factors last first >>= fun _ => run factors last second) exec := by
  induction first generalizing exec with
  | nil => rfl
  | cons item rest ih =>
      by_cases h : exec.loc ≤ last
      · rw [List.cons_append, run_cons h, Action.bind_apply, run_cons h]
        cases item with
        | error e => rfl
        | ok instruction =>
            dsimp only
            rw [Action.bind_apply, Action.bind_apply]
            cases execute factors instruction exec with
            | error e after => rfl
            | ok _ after => exact ih.trans (Action.bind_apply _ _ _)
      · rw [run_past h, Action.bind_eq_of_ok (run_past h _), run_past h]

end StackWalk.Cfi
