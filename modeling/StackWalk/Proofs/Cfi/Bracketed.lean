import Mathlib.Algebra.Group.Nat.Even
import Mathlib.Tactic
import StackWalk.Arch.Shipped
import StackWalk.Proofs.Cfi.RowAt

/-!
# What a bracket restores

A program that is about to lay out an epilogue remembers its row and restores
it afterwards.  Brackets nest, and what stands between the two may be
anything.  The table comes back as it was, and so do the tables put aside; the
state of the return address is not part of the table, so that it comes out of
the bracket as the negations inside have left it.
-/

namespace StackWalk.Cfi

/-! ## What an instruction leaves alone -/

/-- The two states have the same tables put aside and the same signing state. -/
def SameBesideTable (first second : Execution) : Prop :=
  second.workspace = first.workspace ∧ second.row.raSigned = first.row.raSigned

instance : IsPreorder Execution SameBesideTable where
  refl _ := ⟨rfl, rfl⟩
  trans _ _ _ hfirst hsecond :=
    ⟨hsecond.1.trans hfirst.1, hsecond.2.trans hfirst.2⟩

theorem modifyCurrent_keeps (change : RuleTable → Except UnwindError RuleTable) :
    (modifyCurrent change).Keeps SameBesideTable := by
  intro exec
  unfold Action.perform
  rw [modifyCurrent_apply]
  cases change exec.row.current <;> exact ⟨rfl, rfl⟩

theorem saveWindow_keeps (wordSize : UInt64) (regs : List Nat) :
    (saveWindow wordSize regs).Keeps SameBesideTable := by
  induction regs with
  | nil => exact .pure ()
  | cons reg rest ih => exact .bind (modifyCurrent_keeps _) fun _ => ih

/-- Whether the instruction changes the signing state. -/
def Factors.negates (factors : Factors) (instruction : Instruction) : Bool :=
  instruction = .windowSave && factors.arch.windowSave = some .negateRaState

/-- Whether the instruction puts a table aside or takes one back. -/
def Instruction.isBracket : Instruction → Bool
  | .rememberState | .restoreState => true
  | _ => false

theorem execute_keeps (factors : Factors) (instruction : Instruction)
    (hplain : instruction.isBracket = false) (hstill : factors.negates instruction = false) :
    (execute factors instruction).Keeps SameBesideTable := by
  have hrule (reg : UInt64) (rule : RegisterRule) : (setRule reg rule).Keeps SameBesideTable :=
    modifyCurrent_keeps _
  cases instruction with
  | setLoc addr => exact .of_modify fun exec => ⟨rfl, rfl⟩
  | advanceLoc form delta => exact .of_modify fun exec => ⟨rfl, rfl⟩
  | argsSize size => exact .of_modify fun exec => ⟨rfl, rfl⟩
  | nop => exact .pure ()
  | defCfa reg offset => exact .bind (.lift _) fun _ => modifyCurrent_keeps _
  | defCfaFactored reg factored => exact .bind (.lift _) fun _ => modifyCurrent_keeps _
  | defCfaRegister reg => exact .bind (.lift _) fun _ => modifyCurrent_keeps _
  | register reg source => exact .bind (.lift _) fun _ => modifyCurrent_keeps _
  | restore form reg =>
      exact .get_bind fun exec =>
        Action.Keeps.bind (.lift (exec.row.initial.get reg)) (fun _ => modifyCurrent_keeps _) exec
  | rememberState => cases hplain
  | restoreState => cases hplain
  | windowSave =>
      have hkind : factors.arch.windowSave ≠ some .negateRaState := by
        simpa [Factors.negates] using hstill
      simp only [execute]
      cases hsave : factors.arch.windowSave with
      | none => exact .throw _
      | some kind =>
          cases kind with
          | registerWindows => exact saveWindow_keeps _ _
          | negateRaState => exact absurd hsave hkind
  | defCfaOffset offset => exact modifyCurrent_keeps _
  | defCfaOffsetFactored factored => exact modifyCurrent_keeps _
  | defCfaExpression addr =>
      exact modifyCurrent_keeps fun table => .ok { table with cfa := .expression addr }
  | _ => exact hrule _ _

/-! ## Effects -/

variable {factors : Factors} {state next : Row × Workspace}

theorem execute_of_effect {instruction : Instruction}
    (h : effect factors (.ok instruction) state = .ok next) :
    ∃ loc, execute factors instruction ⟨0, state.1, state.2⟩ = .ok () ⟨loc, next.1, next.2⟩ := by
  rcases execute_cases factors instruction ⟨0, state.1, state.2⟩ with
    ⟨row, ws, heffect, hexec⟩ | ⟨e, after, heffect, -⟩
  · rw [h] at heffect
    obtain rfl := Except.ok.inj heffect
    exact ⟨_, hexec⟩
  · rw [h] at heffect
    cases heffect

theorem effect_rememberState :
    effect factors (.ok .rememberState) state =
      (state.2.push state.1.current).map fun ws => (state.1, ws) := by
  simp only [effect, execute, ok_bind, Action.get_bind_apply]
  cases state.2.push state.1.current <;> rfl

theorem effect_restoreState :
    effect factors (.ok .restoreState) state =
      state.2.pop.map fun popped => ({ state.1 with current := popped.1 }, popped.2) := by
  simp only [effect, execute, ok_bind, Action.get_bind_apply]
  cases state.2.pop <;> rfl

theorem effect_plain {instruction : Instruction} (hplain : instruction.isBracket = false)
    (h : effect factors (.ok instruction) state = .ok next) :
    next.2 = state.2 ∧ next.1.raSigned = (state.1.raSigned ^^ factors.negates instruction) := by
  obtain ⟨loc, hexec⟩ := execute_of_effect h
  obtain ⟨row, ws⟩ := next
  cases hnegates : factors.negates instruction with
  | false =>
      have hkept := (execute_keeps factors instruction hplain hnegates).of_ok hexec
      simpa [SameBesideTable] using hkept
  | true =>
      obtain ⟨rfl, hkind⟩ : instruction = .windowSave ∧
          factors.arch.windowSave = some .negateRaState := by
        simpa [Factors.negates] using hnegates
      simp only [execute, hkind] at hexec
      cases hexec
      simp

theorem raSigned_of_effect {instruction : Instruction}
    (h : effect factors (.ok instruction) state = .ok next) :
    next.1.raSigned = (state.1.raSigned ^^ factors.negates instruction) := by
  cases hbracket : instruction.isBracket with
  | false => exact (effect_plain hbracket h).2
  | true =>
      cases instruction with
      | rememberState =>
          rw [effect_rememberState] at h
          cases hpush : state.2.push state.1.current <;> rw [hpush] at h <;> cases h
          simp [Factors.negates]
      | restoreState =>
          rw [effect_restoreState] at h
          cases hpop : state.2.pop <;> rw [hpop] at h <;> cases h
          simp [Factors.negates]
      | _ => cases hbracket

/-! ## Programs -/

theorem effects_append (first second : List (Except UnwindError Instruction)) :
    effects factors (first ++ second) state =
      effects factors first state >>= effects factors second := by
  induction first generalizing state with
  | nil => rfl
  | cons item rest ih =>
      simp only [List.cons_append, effects]
      cases effect factors item state with
      | error e => rfl
      | ok mid => exact ih

/-- The flag is where it was after an even number of negations, whatever else
the program does. -/
theorem raSigned_of_effects {program : List Instruction}
    (h : effects factors (program.map .ok) state = .ok next) :
    next.1.raSigned = state.1.raSigned ↔ Even (program.countP factors.negates) := by
  induction program generalizing state with
  | nil =>
      obtain rfl := Except.ok.inj h
      simp
  | cons instruction rest ih =>
      obtain ⟨mid, hmid, hrest⟩ := bind_eq_ok_iff.mp h
      have hflag := raSigned_of_effect hmid
      have hcount := ih hrest
      cases hnegates : factors.negates instruction with
      | false =>
          rw [hnegates, Bool.xor_false] at hflag
          rw [List.countP_cons_of_neg (by simp [hnegates]), ← hcount, hflag]
      | true =>
          rw [hnegates, Bool.xor_true] at hflag
          rw [List.countP_cons_of_pos hnegates, Nat.even_add_one, ← hcount, hflag]
          cases next.1.raSigned <;> cases state.1.raSigned <;> simp

/-- A part of a program in which every remember has its restore. -/
inductive Bracketed : List Instruction → Prop where
  | nil : Bracketed []
  | cons {instruction : Instruction} {rest : List Instruction}
      (hplain : instruction.isBracket = false) (hrest : Bracketed rest) :
      Bracketed (instruction :: rest)
  | bracket {inner rest : List Instruction} (hinner : Bracketed inner) (hrest : Bracketed rest) :
      Bracketed (.rememberState :: inner ++ .restoreState :: rest)

/-- A fragment between a remember and its restore. -/
def bracket (fragment : List Instruction) : List Instruction :=
  .rememberState :: fragment ++ [.restoreState]

theorem effects_bracket {fragment : List Instruction}
    (hfragment : ∀ {state next}, effects factors (fragment.map .ok) state = .ok next →
      next.2 = state.2)
    (h : effects factors ((bracket fragment).map .ok) state = .ok next) :
    next.2 = state.2 ∧ next.1.current = state.1.current := by
  simp only [bracket, List.map_append, List.map_cons, effects_append] at h
  obtain ⟨last, hlast, hrestore⟩ := bind_eq_ok_iff.mp h
  obtain ⟨inside, hremember, hinside⟩ := bind_eq_ok_iff.mp hlast
  rw [effect_rememberState] at hremember
  cases hpush : state.2.push state.1.current with
  | error e =>
      rw [hpush] at hremember
      cases hremember
  | ok ws =>
      rw [hpush] at hremember
      obtain rfl := Except.ok.inj hremember
      have hpop := Workspace.pop_push hpush
      have hws : last.2 = ws := hfragment hinside
      rw [← hws] at hpop
      simp only [List.map_nil, effects, effect_restoreState, hpop] at hrestore
      obtain rfl := Except.ok.inj hrestore
      exact ⟨rfl, rfl⟩

theorem workspace_of_bracketed {fragment : List Instruction} (hfragment : Bracketed fragment)
    (h : effects factors (fragment.map .ok) state = .ok next) : next.2 = state.2 := by
  induction hfragment generalizing state next with
  | nil =>
      obtain rfl := Except.ok.inj h
      rfl
  | cons hplain hrest ih =>
      obtain ⟨mid, hmid, hafter⟩ := bind_eq_ok_iff.mp h
      exact (ih hafter).trans (effect_plain hplain hmid).1
  | @bracket inner rest hinner hrest ihinner ihrest =>
      have hsplit : .rememberState :: inner ++ .restoreState :: rest =
          bracket inner ++ rest := by
        simp [bracket]
      rw [hsplit, List.map_append, effects_append] at h
      obtain ⟨mid, hmid, hafter⟩ := bind_eq_ok_iff.mp h
      exact (ihrest hafter).trans (effects_bracket ihinner hmid).1

/-- A program all of whose instructions stand at or before the last location
has the effects of all of them. -/
theorem effects_of_run {program : List Instruction} {last : UInt64} {exec after : Execution}
    (hreached : ∀ item ∈ located factors.codeAlign exec.loc (program.map .ok), item.1 ≤ last)
    (hrun : run factors last (program.map .ok) exec = .ok () after) :
    effects factors (program.map .ok) (exec.row, exec.workspace) =
      .ok (after.row, after.workspace) := by
  have houtcome := rowOutcome_run factors last (program.map .ok) exec
  have hall : (located factors.codeAlign exec.loc (program.map .ok)).takeWhile (·.1 ≤ last) =
      located factors.codeAlign exec.loc (program.map .ok) :=
    List.takeWhile_eq_self_iff.mpr fun item hitem => decide_eq_true (hreached item hitem)
  rw [hall, map_snd_located, hrun] at houtcome
  exact houtcome.symm

/-- A bracket brings the table back.  The signing state comes back exactly when
the fragment negates it an even number of times. -/
theorem run_bracket (factors : Factors)
    (hkind : factors.arch.windowSave = some .negateRaState)
    {fragment : List Instruction} (hfragment : Bracketed fragment)
    {last : UInt64} {exec after : Execution}
    (hreached : ∀ item ∈ located factors.codeAlign exec.loc ((bracket fragment).map .ok),
      item.1 ≤ last)
    (hrun : run factors last ((bracket fragment).map .ok) exec = .ok () after) :
    after.row.current = exec.row.current ∧ after.workspace = exec.workspace ∧
      (after.row.raSigned = exec.row.raSigned ↔ Even (fragment.count .windowSave)) := by
  have heffects := effects_of_run hreached hrun
  obtain ⟨hworkspace, hcurrent⟩ := effects_bracket (workspace_of_bracketed hfragment) heffects
  have hflag := raSigned_of_effects heffects
  have hcount : (bracket fragment).countP factors.negates = fragment.count .windowSave := by
    have hnegates : factors.negates = (· == .windowSave) := by
      funext instruction
      simp [Factors.negates, hkind, Bool.beq_eq_decide_eq]
    simp [bracket, hnegates, List.count, List.countP_append]
  rw [hcount] at hflag
  exact ⟨hcurrent, hworkspace, hflag⟩

/-- A return in the middle of a function: the return address is authenticated,
and the code behind it runs with a signed one again. -/
def earlyReturn : List Instruction :=
  [.advanceLoc .packed 4, .windowSave, .advanceLoc .packed 4]

def aarch64Factors : Factors where
  arch := .aarch64
  codeAlign := 1
  dataAlign := -8

/-- A frame whose return address was signed on entry. -/
def signedFrame : Execution where
  loc := 0x4004
  row := { Row.default .aarch64 30 with raSigned := true }
  workspace := .empty

theorem run_bracket_earlyReturn :
    ∃ after, run aarch64Factors maxWord ((bracket earlyReturn).map .ok) signedFrame = .ok () after ∧
      after.row.current = signedFrame.row.current ∧ after.workspace = signedFrame.workspace ∧
      (after.row.raSigned = signedFrame.row.raSigned ↔ Even (earlyReturn.count .windowSave)) := by
  have hfragment : Bracketed earlyReturn := .cons rfl (.cons rfl (.cons rfl .nil))
  have hreached : ∀ item ∈ located aarch64Factors.codeAlign signedFrame.loc
      ((bracket earlyReturn).map .ok), item.1 ≤ maxWord := by
    decide
  have hrun : run aarch64Factors maxWord ((bracket earlyReturn).map .ok) signedFrame =
      .ok () ⟨0x400c, Row.default .aarch64 30, .empty⟩ := rfl
  exact ⟨_, hrun, run_bracket aarch64Factors rfl hfragment hreached hrun⟩

/-- Signed when it is remembered, and not signed when it is restored. -/
theorem raSigned_after_earlyReturn :
    ∃ entered after,
      run aarch64Factors maxWord [.ok .windowSave]
        ⟨0x4004, Row.default .aarch64 30, .empty⟩ = .ok () entered ∧
      Bracketed earlyReturn ∧
      run aarch64Factors maxWord ((bracket earlyReturn).map .ok) entered = .ok () after ∧
      after.loc ≤ maxWord ∧ after.row.current = entered.row.current ∧
      entered.row.raSigned = true ∧ after.row.raSigned = false :=
  ⟨signedFrame, ⟨0x400c, Row.default .aarch64 30, .empty⟩, rfl,
    .cons rfl (.cons rfl (.cons rfl .nil)), rfl, by decide, rfl, rfl, rfl⟩

end StackWalk.Cfi
