import Mathlib.Tactic
import StackWalk.Proofs.Cfi.Instructions

/-!
# Nested brackets

Brackets nest four deep.  A fragment with room for its brackets does the same
whatever tables are put aside, so that it can be thought of as run by itself.
Around it, a remember and a restore give back the table and the tables put
aside, and of all else they keep what the fragment has made.
-/

namespace StackWalk.Cfi

variable {factors : Factors} {last : UInt64} {fragment : List Instruction}

/-! ## Depth -/

/-- How many tables are put aside after an instruction. -/
def depthAfter (depth : Nat) : Instruction → Nat
  | .rememberState => depth + 1
  | .restoreState => depth - 1
  | _ => depth

/-- The most tables put aside at any time, beginning with `depth` of them. -/
def deepest : Nat → List Instruction → Nat
  | depth, [] => depth
  | depth, instruction :: rest => max depth (deepest (depthAfter depth instruction) rest)

theorem depthAfter_plain {instruction : Instruction} (hplain : instruction.isBracket = false)
    (depth : Nat) : depthAfter depth instruction = depth := by
  cases instruction <;> first | rfl | cases hplain

theorem deepest_append (depth : Nat) (first second : List Instruction) :
    deepest depth (first ++ second) =
      max (deepest depth first) (deepest (first.foldl depthAfter depth) second) := by
  induction first generalizing depth with
  | nil =>
      cases second with
      | nil => simp [deepest]
      | cons instruction rest => simp [deepest]
  | cons instruction rest ih => simp [deepest, ih, max_assoc]

theorem foldl_depthAfter (hfragment : Bracketed fragment) (depth : Nat) :
    fragment.foldl depthAfter depth = depth := by
  induction hfragment generalizing depth with
  | nil => rfl
  | cons hplain _ ih => rw [List.foldl_cons, depthAfter_plain hplain, ih]
  | bracket _ _ ihinner ihrest =>
      simp [List.foldl_append, depthAfter, ihinner, ihrest]

theorem le_deepest (depth : Nat) (program : List Instruction) : depth ≤ deepest depth program := by
  cases program with
  | nil => exact le_rfl
  | cons instruction rest => exact le_max_left _ _

/-! ## Fragments by themselves -/

theorem run_remember {exec : Execution} (h : exec.loc ≤ last)
    (rest : List (Except UnwindError Instruction)) :
    run factors last (.ok .rememberState :: rest) exec =
      match exec.workspace.push exec.row.current with
      | .ok ws => run factors last rest { exec with workspace := ws }
      | .error e => .error e exec := by
  rw [run_cons h]
  dsimp only
  rw [Action.bind_apply, execute_remember]
  cases exec.workspace.push exec.row.current <;> rfl

theorem run_restore {exec : Execution} (h : exec.loc ≤ last)
    (rest : List (Except UnwindError Instruction)) :
    run factors last (.ok .restoreState :: rest) exec =
      match exec.workspace.pop with
      | .ok (table, ws) =>
          run factors last rest { exec.withCurrent table with workspace := ws }
      | .error e => .error e exec := by
  rw [run_cons h]
  dsimp only
  rw [Action.bind_apply, execute_restore]
  cases exec.workspace.pop <;> rfl

/-- A run that ends at or before the last location began there. -/
theorem loc_le_of_run {items : List (Except UnwindError Instruction)} {exec after : Execution}
    (hrun : run factors last items exec = .ok () after) (hafter : after.loc ≤ last) :
    exec.loc ≤ last := by
  by_contra hpast
  rw [run_past hpast] at hrun
  cases hrun
  exact hpast hafter

/-- The fragment does the same whatever is put aside, if there is room for its
brackets, and leaves it alone. -/
def Portable (factors : Factors) (last : UInt64) (fragment : List Instruction) : Prop :=
  ∀ exec inside, run factors last (fragment.map .ok) exec = .ok () inside → inside.loc ≤ last →
    inside.workspace = exec.workspace ∧
      ∀ ws, deepest ws.snapshots.length fragment ≤ Workspace.maxSnapshots →
        run factors last (fragment.map .ok) { exec with workspace := ws } =
          .ok () { inside with workspace := ws }

/-- The execution after a bracket, given that inside it. -/
def Execution.closing (exec inside : Execution) : Execution :=
  { inside.withCurrent exec.row.current with workspace := exec.workspace }

theorem Portable.enclosed (hfragment : Portable factors last fragment)
    (exec : Execution) {inside : Execution} {other : Workspace}
    (hfits : deepest (exec.workspace.snapshots.length + 1) fragment ≤ Workspace.maxSnapshots)
    (hrun : run factors last (fragment.map .ok) { exec with workspace := other } = .ok () inside)
    (hinside : inside.loc ≤ last) (rest : List (Except UnwindError Instruction)) :
    run factors last (.ok .rememberState :: fragment.map .ok ++ .ok .restoreState :: rest) exec =
      run factors last rest (exec.closing inside) := by
  have hloc : { exec with workspace := other }.loc ≤ last := loc_le_of_run hrun hinside
  have hroom : exec.workspace.snapshots.length < Workspace.maxSnapshots :=
    (le_deepest _ _).trans hfits
  let pushed : Workspace :=
    { exec.workspace with snapshots := exec.row.current :: exec.workspace.snapshots }
  have hpush : exec.workspace.push exec.row.current = .ok pushed := if_pos hroom
  have hinner := (hfragment _ _ hrun hinside).2 pushed hfits
  rw [List.cons_append, run_remember (show exec.loc ≤ last from hloc), hpush]
  dsimp only at hinner ⊢
  rw [run_append, Action.bind_eq_of_ok hinner]
  exact run_restore (show { inside with workspace := pushed }.loc ≤ last from hinside) rest

theorem Portable.bracket {inner rest : List Instruction} (hnested : Bracketed inner)
    (hinner : Portable factors last inner) (hrest : Portable factors last rest) :
    Portable factors last (.rememberState :: inner ++ .restoreState :: rest) := by
  intro exec inside hrun hinside
  have hloc := loc_le_of_run hrun hinside
  have hitems : (.rememberState :: inner ++ .restoreState :: rest).map .ok =
      (.ok .rememberState :: inner.map .ok ++ .ok .restoreState :: rest.map .ok :
        List (Except UnwindError Instruction)) := by
    simp
  rw [hitems] at hrun ⊢
  rw [List.cons_append, run_remember hloc] at hrun
  cases hpush : exec.workspace.push exec.row.current with
  | error e =>
      rw [hpush] at hrun
      cases hrun
  | ok pushed =>
      rw [hpush] at hrun
      dsimp only at hrun
      rw [run_append, Action.bind_apply] at hrun
      cases hmid : run factors last (inner.map .ok) { exec with workspace := pushed } with
      | error e after =>
          rw [hmid] at hrun
          cases hrun
      | ok _ mid =>
          rw [hmid] at hrun
          have hmidloc : mid.loc ≤ last := loc_le_of_run hrun hinside
          have hpop : mid.workspace.pop = .ok (exec.row.current, exec.workspace) := by
            rw [(hinner _ _ hmid hmidloc).1]
            exact Workspace.pop_push hpush
          dsimp only at hrun
          rw [run_restore hmidloc, hpop] at hrun
          obtain ⟨hkept, hany⟩ := hrest _ _ hrun hinside
          refine ⟨hkept, fun ws hfits => ?_⟩
          rw [List.cons_append, deepest, depthAfter, deepest_append, foldl_depthAfter hnested,
            max_le_iff, max_le_iff, deepest, depthAfter, max_le_iff] at hfits
          obtain ⟨-, hfitsInner, -, hfitsRest⟩ := hfits
          -- The run inside was that with `pushed` put aside, and is moved to `ws`.
          have henclosed :=
            hinner.enclosed { exec with workspace := ws } hfitsInner hmid hmidloc (rest.map .ok)
          rw [henclosed]
          exact hany ws hfitsRest

theorem run_bracketed (hfragment : Bracketed fragment) : Portable factors last fragment := by
  induction hfragment with
  | nil =>
      rintro exec _ ⟨⟩ -
      exact ⟨rfl, fun _ _ => rfl⟩
  | @cons instruction rest hplain hrest ih =>
      intro exec inside hrun hinside
      have hloc := loc_le_of_run hrun hinside
      obtain ⟨_, next, ⟨⟩, hexec, hafter⟩ := ok_of_run_cons hloc hrun
      obtain ⟨hkept, hany⟩ := ih next inside hafter hinside
      refine ⟨hkept.trans (workspace_of_execute hplain hexec), fun ws hfits => ?_⟩
      have hother := execute_withWorkspace factors hplain exec ws
      rw [hexec] at hother
      rw [List.map_cons, run_cons (show { exec with workspace := ws }.loc ≤ last from hloc)]
      dsimp only
      rw [Action.bind_eq_of_ok hother]
      rw [deepest, depthAfter_plain hplain] at hfits
      exact hany ws ((le_max_right _ _).trans hfits)
  | bracket hnested _ ihinner ihrest => exact .bracket hnested ihinner ihrest

/-! ## The tables put aside by a run -/

theorem initial_of_run {program : List (Except UnwindError Instruction)} {exec after : Execution}
    (hrun : run factors last program exec = .ok () after) :
    after.row.initial = exec.row.initial := by
  induction program generalizing exec with
  | nil =>
      cases hrun
      rfl
  | cons item rest ih =>
      by_cases hloc : exec.loc ≤ last
      · obtain ⟨instruction, next, rfl, hexec, hafter⟩ := ok_of_run_cons hloc hrun
        exact (ih hafter).trans (initial_of_execute hexec)
      · rw [run_past hloc] at hrun
        cases hrun
        rfl

theorem length_of_push {ws next : Workspace} {table : RuleTable}
    (h : ws.push table = .ok next) : next.snapshots.length = ws.snapshots.length + 1 := by
  unfold Workspace.push at h
  split at h <;> cases h
  rfl

theorem length_of_pop {ws next : Workspace} {table : RuleTable}
    (h : ws.pop = .ok (table, next)) : ws.snapshots.length = next.snapshots.length + 1 := by
  unfold Workspace.pop at h
  split at h <;> cases h
  exact congrArg List.length ‹_›

theorem snapshots_of_execute {instruction : Instruction} {exec after : Execution}
    (h : execute factors instruction exec = .ok () after) :
    after.workspace.snapshots.length + [instruction].count .restoreState =
      exec.workspace.snapshots.length + [instruction].count .rememberState := by
  cases hplain : instruction.isBracket with
  | false =>
      rw [workspace_of_execute hplain h]
      cases instruction <;> first | rfl | cases hplain
  | true =>
      cases instruction with
      | rememberState =>
          rw [execute_remember] at h
          split at h <;> cases h
          exact length_of_push ‹_›
      | restoreState =>
          rw [execute_restore] at h
          split at h <;> cases h
          exact (length_of_pop ‹_›).symm
      | _ => cases hplain

/-- What was put aside and not taken back is there. -/
theorem snapshots_of_run {program : List Instruction} {exec mid : Execution}
    (hrun : run factors last (program.map .ok) exec = .ok () mid) (hmid : mid.loc ≤ last) :
    mid.workspace.snapshots.length + program.count .restoreState =
      exec.workspace.snapshots.length + program.count .rememberState := by
  induction program generalizing exec with
  | nil =>
      cases hrun
      rfl
  | cons instruction rest ih =>
      have hloc := loc_le_of_run hrun hmid
      obtain ⟨_, next, ⟨⟩, hexec, hafter⟩ := ok_of_run_cons hloc hrun
      have hrest := ih hafter
      have hstep := snapshots_of_execute hexec
      rw [← List.singleton_append, List.count_append, List.count_append]
      omega

/-- A remember and its restore bracket the table, whatever well-bracketed
fragment for which there is room is run between them.  A restore without a
remember fails, and so does a remember for which there is no room, and both
change nothing. -/
theorem remember_restore_brackets (factors : Factors) (last : UInt64) :
    (∀ (fragment : List Instruction) (exec inside : Execution) (other : Workspace),
      Bracketed fragment →
      deepest exec.workspace.snapshots.length (bracket fragment) ≤ Workspace.maxSnapshots →
      run factors last (fragment.map .ok) { exec with workspace := other } = .ok () inside →
      inside.loc ≤ last →
      ∃ after, run factors last ((bracket fragment).map .ok) exec = .ok () after ∧
        after.loc = inside.loc ∧ after.row.current = exec.row.current ∧
        after.row.initial = exec.row.initial ∧ after.workspace = exec.workspace) ∧
    (∀ (before : List Instruction) (exec mid : Execution)
        (rest : List (Except UnwindError Instruction)),
      run factors last (before.map .ok) exec = .ok () mid → mid.loc ≤ last →
      exec.workspace.snapshots.length + before.count .rememberState =
        before.count .restoreState →
      run factors last (before.map .ok ++ .ok .restoreState :: rest) exec =
        .error (.invalidArgument .restoreWithoutRemember) mid) ∧
    (∀ (before : List Instruction) (exec mid : Execution)
        (rest : List (Except UnwindError Instruction)),
      run factors last (before.map .ok) exec = .ok () mid → mid.loc ≤ last →
      before.count .restoreState + Workspace.maxSnapshots ≤
        exec.workspace.snapshots.length + before.count .rememberState →
      run factors last (before.map .ok ++ .ok .rememberState :: rest) exec =
        .error (.outOfMemory .ruleSnapshots) mid) := by
  refine ⟨?_, ?_, ?_⟩
  · intro fragment exec inside other hfragment hfits hrun hinside
    have hitems : (bracket fragment).map .ok =
        (.ok .rememberState :: fragment.map .ok ++ [.ok .restoreState] :
          List (Except UnwindError Instruction)) := by
      simp [bracket]
    have hroom : deepest (exec.workspace.snapshots.length + 1) fragment ≤
        Workspace.maxSnapshots := by
      rw [bracket, List.cons_append, deepest, depthAfter, deepest_append, max_le_iff,
        max_le_iff] at hfits
      exact hfits.2.1
    have hinitial := initial_of_run hrun
    refine ⟨exec.closing inside, ?_, rfl, rfl, hinitial, rfl⟩
    rw [hitems]
    exact (run_bracketed hfragment).enclosed exec hroom hrun hinside []
  · intro before exec mid rest hrun hmid hcount
    have hsnapshots := snapshots_of_run hrun hmid
    have hnone : mid.workspace.snapshots = [] := List.length_eq_zero_iff.mp (by omega)
    rw [run_append, Action.bind_eq_of_ok hrun, run_restore hmid, Workspace.pop, hnone]
  · intro before exec mid rest hrun hmid hcount
    have hsnapshots := snapshots_of_run hrun hmid
    rw [run_append, Action.bind_eq_of_ok hrun, run_remember hmid, Workspace.push,
      if_neg (by omega)]

/-- The row of a loop: another bracket, a CFA that is computed, and a column
put back as it was at first. -/
def loopBody : List Instruction :=
  [.defCfaExpression 0x2000, .rememberState, .undefined 3, .advanceLoc .packed 4, .restoreState,
    .restore .packed 3, .argsSize 16]

def x86Factors : Factors where
  arch := .x86_64
  codeAlign := 1
  dataAlign := -8

/-- Inside two brackets already. -/
def loopStart : Execution where
  loc := 0x4000
  row := Row.default .x86_64 16
  workspace := ⟨[RuleTable.default .x86_64, RuleTable.default .x86_64], []⟩

/-- The same with nothing put aside. -/
def unopened : Execution :=
  { loopStart with workspace := .empty }

/-- The same with no room left. -/
def fullLoop : Execution :=
  { loopStart with workspace := ⟨List.replicate 4 (RuleTable.default .x86_64), []⟩ }

theorem remember_restore_loopBody :
    (∃ after, run x86Factors 0x4010 ((bracket loopBody).map .ok) loopStart = .ok () after ∧
      after.loc = 0x4004 ∧ after.row.current = loopStart.row.current ∧
      after.row.initial = loopStart.row.initial ∧ after.workspace = loopStart.workspace) ∧
    run x86Factors 0x4010 [.ok .restoreState] unopened =
      .error (.invalidArgument .restoreWithoutRemember) unopened ∧
    run x86Factors 0x4010 [.ok .rememberState, .ok .rememberState, .ok .rememberState] loopStart =
      .error (.outOfMemory .ruleSnapshots) fullLoop := by
  obtain ⟨hbracket, hrestore, hremember⟩ := remember_restore_brackets x86Factors 0x4010
  have hfragment : Bracketed loopBody :=
    .cons rfl (.bracket (.cons rfl (.cons rfl .nil)) (.cons rfl (.cons rfl .nil)))
  have hfits : deepest loopStart.workspace.snapshots.length (bracket loopBody) ≤ 4 := by decide
  have hrun : ∃ inside, run x86Factors 0x4010 (loopBody.map .ok)
      { loopStart with workspace := .empty } = .ok () inside ∧ inside.loc = 0x4004 := ⟨_, rfl, rfl⟩
  obtain ⟨inside, hrun, hloc⟩ := hrun
  refine ⟨?_, ?_, ?_⟩
  · obtain ⟨after, hafter, hsame, hkept⟩ :=
      hbracket loopBody loopStart inside .empty hfragment hfits hrun (by rw [hloc]; decide)
    exact ⟨after, hafter, hsame.trans hloc, hkept⟩
  · exact hrestore [] unopened unopened [] rfl (by decide) rfl
  · exact hremember [.rememberState, .rememberState] loopStart fullLoop [] rfl (by decide)
      (by decide)

end StackWalk.Cfi
