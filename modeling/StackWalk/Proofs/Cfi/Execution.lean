import Mathlib.Tactic
import StackWalk.Cfi.Execution
import StackWalk.Proofs.Action

/-!
# What instructions do to a row

A running program has a location, a row and the tables it has put aside.  An
instruction moves the location by what it says, and what it makes of the row
and of the tables does not depend on the location at all.  So an instruction
has an effect of its own, and a list of instructions has the effects of its
items one after the other, up to the first that fails.
-/

namespace StackWalk.Cfi

theorem modifyCurrent_apply
    (change : RuleTable → Except UnwindError RuleTable) (exec : Execution) :
    modifyCurrent change exec =
      match change exec.row.current with
      | .ok table => .ok () { exec with row := { exec.row with current := table } }
      | .error e => .error e exec := by
  unfold modifyCurrent
  cases h : change exec.row.current <;> simp [h]

/-! ## Instructions and the location -/

/-- Where the program stands after an instruction that was met at `loc`. -/
def Instruction.locAfter (codeAlign loc : UInt64) : Instruction → UInt64
  | .setLoc addr => addr
  | .advanceLoc _ delta => loc + delta * codeAlign
  | _ => loc

def relocate {α : Type} (loc : UInt64) :
    EStateM.Result UnwindError Execution α → EStateM.Result UnwindError Execution α
  | .ok a after => .ok a { after with loc := loc }
  | .error e after => .error e { after with loc := loc }

/-- An action that neither reads nor moves the location. -/
def Stationary {α : Type} (action : Action Execution α) : Prop :=
  ∀ exec loc, action { exec with loc := loc } = relocate loc (action exec)

namespace Stationary

variable {α β : Type}

theorem pure (a : α) : Stationary (Pure.pure a) := by
  intro exec loc
  rfl

theorem lift (given : Except UnwindError α) :
    Stationary (liftM given : Action Execution α) := by
  intro exec loc
  cases given <;> rfl

theorem bind {action : Action Execution α} {f : α → Action Execution β}
    (haction : Stationary action) (hf : ∀ a, Stationary (f a)) :
    Stationary (action >>= f) := by
  intro exec loc
  rw [Action.bind_apply, Action.bind_apply, haction exec loc]
  cases action exec with
  | ok a next => exact hf a next loc
  | error e next => rfl

theorem modifyCurrent (change : RuleTable → Except UnwindError RuleTable) :
    Stationary (Cfi.modifyCurrent change) := by
  intro exec loc
  rw [modifyCurrent_apply, modifyCurrent_apply]
  cases change exec.row.current <;> rfl

theorem setRule (reg : UInt64) (rule : RegisterRule) :
    Stationary (Cfi.setRule reg rule) :=
  modifyCurrent _

theorem setCfa (rule : CfaRule) : Stationary (Cfi.setCfa rule) :=
  modifyCurrent _

theorem saveWindow (wordSize : UInt64) (regs : List Nat) :
    Stationary (Cfi.saveWindow wordSize regs) := by
  induction regs with
  | nil => exact pure ()
  | cons reg rest ih => exact bind (setRule _ _) fun _ => ih

end Stationary

/-- Only the location after an instruction depends on the location before it. -/
theorem execute_relocate
    (factors : Factors) (instruction : Instruction) (exec : Execution) (loc : UInt64) :
    execute factors instruction { exec with loc := loc } =
      match execute factors instruction exec with
      | .ok _ after => .ok () { after with loc := instruction.locAfter factors.codeAlign loc }
      | .error e after => .error e { after with loc := loc } := by
  have hstill {action : Action Execution Unit} (h : Stationary action) :
      action { exec with loc := loc } =
        match action exec with
        | .ok _ after => .ok () { after with loc := loc }
        | .error e after => .error e { after with loc := loc } := by
    rw [h exec loc]
    cases action exec <;> rfl
  cases instruction with
  | setLoc addr => rfl
  | advanceLoc form delta => rfl
  | defCfa reg offset => exact hstill (.bind (.lift _) fun _ => .setCfa _)
  | defCfaFactored reg factored => exact hstill (.bind (.lift _) fun _ => .setCfa _)
  | defCfaRegister reg => exact hstill (.bind (.lift _) fun _ => .modifyCurrent _)
  | defCfaOffset offset => exact hstill (.modifyCurrent _)
  | defCfaOffsetFactored factored => exact hstill (.modifyCurrent _)
  | defCfaExpression addr => exact hstill (.setCfa _)
  | register reg source => exact hstill (.bind (.lift _) fun _ => .setRule _ _)
  | restore form reg =>
      simp only [execute, Action.get_bind_apply]
      exact hstill (.bind (.lift (exec.row.initial.get reg)) fun rule => .setRule reg rule)
  | rememberState =>
      simp only [execute, Action.get_bind_apply]
      cases exec.workspace.push exec.row.current <;> rfl
  | restoreState =>
      simp only [execute, Action.get_bind_apply]
      cases exec.workspace.pop <;> rfl
  | windowSave =>
      simp only [execute]
      cases factors.arch.windowSave with
      | none => rfl
      | some kind =>
          cases kind with
          | registerWindows => exact hstill (.saveWindow _ _)
          | negateRaState => rfl
  | argsSize size => rfl
  | nop => rfl
  | _ => exact hstill (.setRule _ _)

/-! ## Effects -/

/-- What one item of a program makes of a row and the tables put aside. -/
def effect (factors : Factors) (item : Except UnwindError Instruction)
    (state : Row × Workspace) : Except UnwindError (Row × Workspace) := do
  let instruction ← item
  match execute factors instruction ⟨0, state.1, state.2⟩ with
  | .ok _ after => .ok (after.row, after.workspace)
  | .error e _ => .error e

/-- What the items of a program make of a row, all of them in order. -/
def effects (factors : Factors) :
    List (Except UnwindError Instruction) → Row × Workspace →
      Except UnwindError (Row × Workspace)
  | [], state =>
      .ok state
  | item :: rest, state => do
      let next ← effect factors item state
      effects factors rest next

/-- One of the items fails, with all before it having had their effects. -/
def FailsWith (factors : Factors) (items : List (Except UnwindError Instruction))
    (state : Row × Workspace) (e : UnwindError) : Prop :=
  ∃ before item after next,
    items = before ++ item :: after ∧
      effects factors before state = .ok next ∧ effect factors item next = .error e

theorem execute_cases
    (factors : Factors) (instruction : Instruction) (exec : Execution) :
    (∃ row ws,
      effect factors (.ok instruction) (exec.row, exec.workspace) = .ok (row, ws) ∧
        execute factors instruction exec =
          .ok () ⟨instruction.locAfter factors.codeAlign exec.loc, row, ws⟩) ∨
    (∃ e after,
      effect factors (.ok instruction) (exec.row, exec.workspace) = .error e ∧
        execute factors instruction exec = .error e after) := by
  have h := execute_relocate factors instruction ⟨0, exec.row, exec.workspace⟩ exec.loc
  cases hrun : execute factors instruction ⟨0, exec.row, exec.workspace⟩ with
  | ok _ after =>
      rw [hrun] at h
      left
      exact ⟨after.row, after.workspace, by simp [effect, hrun, bind, Except.bind], h⟩
  | error e after =>
      rw [hrun] at h
      right
      exact ⟨e, _, by simp [effect, hrun, bind, Except.bind], h⟩

theorem effects_cons_of_ok
    {factors : Factors} {item : Except UnwindError Instruction} {state next : Row × Workspace}
    (h : effect factors item state = .ok next)
    (rest : List (Except UnwindError Instruction)) :
    effects factors (item :: rest) state = effects factors rest next := by
  simp [effects, h, bind, Except.bind]

theorem effects_cons_of_error
    {factors : Factors} {item : Except UnwindError Instruction} {state : Row × Workspace}
    {e : UnwindError} (h : effect factors item state = .error e)
    (rest : List (Except UnwindError Instruction)) :
    effects factors (item :: rest) state = .error e := by
  simp [effects, h, bind, Except.bind]

theorem effects_eq_error_iff
    {factors : Factors} {items : List (Except UnwindError Instruction)}
    {state : Row × Workspace} {e : UnwindError} :
    effects factors items state = .error e ↔ FailsWith factors items state e := by
  induction items generalizing state with
  | nil =>
      constructor
      · intro h
        cases h
      · rintro ⟨before, item, after, next, hsplit, -⟩
        simp at hsplit
  | cons item rest ih =>
      constructor
      · intro h
        cases hitem : effect factors item state with
        | error e' =>
            rw [effects_cons_of_error hitem] at h
            obtain rfl : e' = e := by simpa using h
            exact ⟨[], item, rest, state, rfl, rfl, hitem⟩
        | ok next =>
            rw [effects_cons_of_ok hitem] at h
            obtain ⟨before, failing, after, last, rfl, hbefore, hfailing⟩ := ih.mp h
            refine ⟨item :: before, failing, after, last, rfl, ?_, hfailing⟩
            rw [effects_cons_of_ok hitem]
            exact hbefore
      · rintro ⟨before, failing, after, last, hsplit, hbefore, hfailing⟩
        cases before with
        | nil =>
            obtain ⟨rfl, rfl⟩ : item = failing ∧ rest = after := by simpa using hsplit
            obtain rfl : state = last := by simpa [effects] using hbefore
            exact effects_cons_of_error hfailing rest
        | cons first before =>
            obtain ⟨rfl, rfl⟩ : item = first ∧ rest = before ++ failing :: after := by
              simpa using hsplit
            cases hitem : effect factors item state with
            | error e' =>
                rw [effects_cons_of_error hitem] at hbefore
                cases hbefore
            | ok next =>
                rw [effects_cons_of_ok hitem] at hbefore ⊢
                exact ih.mpr ⟨before, failing, after, last, rfl, hbefore, hfailing⟩

end StackWalk.Cfi
