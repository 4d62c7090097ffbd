import Mathlib.Tactic
import StackWalk.Proofs.Expression.WordMachine
import StackWalk.Proofs.Echo

/-!
# The bytes of an operation

An operation begins inside its expression, and nothing makes sure that its
operands end there.  When all operations of a run do end inside, the run depends
on the bytes of the expression and on what the operations look up elsewhere, and
on nothing else.
-/

namespace StackWalk.Expression

variable {w : Nat} {first second : Target} {ctx : Context} {stop pos : UInt64}

/-! ## Operands -/

/-- The operand of an addition could be read. -/
def Operation.isComplete : Operation → Bool
  | .add (.error _) => false
  | _ => true

theorem readFamily_echoes (first second : Target) (opcode : UInt8) :
    EchoesAt first second stop pos (readFamily first opcode) (readFamily second opcode) := by
  unfold readFamily
  split
  · exact .pure _
  · exact .pure _
  · split
    · exact .pure _
    · split
      · exact .map _ (Target.readSLeb128_echoes first second stop pos)
      · exact .pure _

theorem readOperands_echoes (hkind : first.SameKind second) {opcode : UInt8}
    (hadd : opcode ≠ 0x23) :
    EchoesAt first second stop pos (readOperands first opcode) (readOperands second opcode) := by
  have byte := Target.readU8_echoes first second stop
  have uleb := Target.readULeb128_echoes first second stop
  have sleb := Target.readSLeb128_echoes first second stop
  have number {size : Nat} (hsize : size < 2 ^ 64) :=
    Target.readUInt_echoes hkind.sameArch hsize stop
  unfold readOperands
  split
  · exact .pure _
  · split
    case h_1 => exact .map _ (Target.readTargetWord_echoes hkind.sameArch stop pos)
    case h_19 => exact absurd rfl hadd
    case h_23 => exact .bind (uleb pos) fun reg next _ => .map _ (sleb next)
    case h_27 => exact readFamily_echoes first second opcode
    all_goals
      first
        | exact .pure _
        | exact .map _ (byte pos)
        | exact .map _ (uleb pos)
        | exact .map _ (sleb pos)
        | exact .map _ (number (by decide) pos)
        | exact .map _ (.map _ (byte pos))

theorem readOperation_echoes (hkind : first.SameKind second)
    (hagree : first.AgreeOn second pos stop) {op : Operation} {next : UInt64}
    (hread : readOperation first pos = .ok op next) (hcomplete : op.isComplete = true) :
    pos ≤ next ∧ (next ≤ stop → readOperation second pos = .ok op next) := by
  obtain ⟨opcode, body, hopcode, hoperands⟩ := Action.ok_of_bind hread
  obtain ⟨hbody, hecho⟩ :=
    Target.readU8_echoes first second stop pos hagree opcode body hopcode
  suffices hrest : body ≤ next ∧ (next ≤ stop → readOperands second opcode body = .ok op next) by
    refine ⟨UInt64.le_trans hbody hrest.1, fun hstop => ?_⟩
    unfold readOperation
    rw [Action.bind_eq_of_ok (hecho (UInt64.le_trans hrest.1 hstop))]
    exact hrest.2 hstop
  have hbehind := hagree.mono hbody
  -- An addition is read even if its operand cannot be, and ends where that fails.
  by_cases hadd : opcode = 0x23
  · subst hadd
    have hform (target : Target) :
        readOperands target 0x23 = .add <$> Action.attempt target.readULeb128 := rfl
    rw [hform, Action.map_apply, Action.attempt_apply] at hoperands
    cases hvalue : first.readULeb128 body with
    | error e last =>
        rw [hvalue] at hoperands
        cases hoperands
        cases hcomplete
    | ok value last =>
        rw [hvalue] at hoperands
        cases hoperands
        obtain ⟨hle, hechoes⟩ :=
          Target.readULeb128_echoes first second stop body hbehind value next hvalue
        refine ⟨hle, fun hstop => ?_⟩
        rw [hform, Action.map_apply, Action.attempt_apply, hechoes hstop]
  · exact readOperands_echoes hkind hadd hbehind op next hoperands

/-! ## Steps -/

/-- The same expression in another memory. -/
def Context.inTarget (ctx : Context) (target : Target) : Context :=
  { ctx with target := target }

/-- What an operation looks up outside the expression. -/
def lookedUp (ctx : Context) : Operation → List (BitVec w) → Except UnwindError UInt64
  | .load, addr :: _ => ctx.target.readWord (cellOf addr)
  | .loadBytes count, addr :: _ =>
      if count = 0 ∨ ctx.target.arch.addressSize < count then
        .ok 0
      else
        (ctx.target.readUInt count).answer (cellOf addr)
  | .register reg _, _ => readRegister ctx reg
  | _, _ => .ok 0

theorem stackAfter_congr (hkind : ctx.target.SameKind second) {op : Operation}
    {stack : List (BitVec w)}
    (hsame : lookedUp ctx op stack = lookedUp (ctx.inTarget second) op stack) :
    stackAfter ctx op stack = stackAfter (ctx.inTarget second) op stack := by
  have harch : (ctx.inTarget second).target.arch = ctx.target.arch := hkind.arch_eq.symm
  cases op with
  | load =>
      cases stack with
      | nil => rfl
      | cons addr rest =>
          simp only [lookedUp] at hsame
          simp only [stackAfter, hsame]
  | loadBytes count =>
      cases stack with
      | nil => simp only [stackAfter, harch]
      | cons addr rest =>
          simp only [lookedUp, harch] at hsame
          simp only [stackAfter, harch]
          split
          · rfl
          · rename_i hsize
            rw [if_neg hsize, if_neg hsize] at hsame
            rw [hsame]
  | register reg offset =>
      simp only [lookedUp] at hsame
      simp only [stackAfter, hsame]
  | _ => rcases stack with _ | ⟨a, _ | ⟨b, _ | ⟨c, rest⟩⟩⟩ <;> rfl

namespace WordMachine

theorem execute_congr (hkind : ctx.target.SameKind second) {op : Operation}
    {words : WordMachine w}
    (hsame : lookedUp ctx op words.stack = lookedUp (ctx.inTarget second) op words.stack) :
    execute ctx words op = execute (ctx.inTarget second) words op := by
  have harch : (ctx.inTarget second).target.arch = ctx.target.arch := hkind.arch_eq.symm
  have hstack := stackAfter_congr hkind hsame
  cases op with
  | name reg => simp only [execute, harch]
  | jump offset => rfl
  | jumpIf offset => rfl
  | finish => rfl
  | _ => simp only [execute, hstack]

/-- The next operation ends inside the expression, and what it looks up
elsewhere is the same in the other memory. -/
def Enclosed (ctx : Context) (second : Target) (words : WordMachine w) : Prop :=
  ∃ op next, readOperation ctx.target words.pos = .ok op next ∧ next ≤ ctx.stop ∧
    op.isComplete = true ∧
    lookedUp ctx op words.stack = lookedUp (ctx.inTarget second) op words.stack

theorem step_congr (hkind : ctx.target.SameKind second) {words : WordMachine w}
    (hagree : ctx.target.AgreeOn second words.pos ctx.stop) (h : words.Enclosed ctx second) :
    words.step ctx = words.step (ctx.inTarget second) := by
  obtain ⟨op, next, hread, hstop, hcomplete, hsame⟩ := h
  have hecho := (readOperation_echoes hkind hagree hread hcomplete).2 hstop
  unfold step proceed
  rw [hread, show readOperation (ctx.inTarget second).target words.pos = .ok op next from hecho]
  exact execute_congr hkind hsame

theorem complete_of_execute {op : Operation} {words : WordMachine w} {outcome : Outcome w}
    (h : execute ctx words op = .ok outcome) : op.isComplete = true := by
  cases op with
  | add operand =>
      cases operand with
      | ok value => rfl
      | error e =>
          obtain ⟨pos, _ | ⟨a, rest⟩⟩ := words <;> cases h
  | _ => rfl

theorem start_le_of_jump {offset : UInt64} {words after : WordMachine w}
    (h : jump ctx offset words = .ok (.next after)) : ctx.start ≤ after.pos := by
  simp only [jump] at h
  split at h
  · rename_i hinside
    cases h
    exact hinside.1
  · cases h

/-- An operation leaves the position alone, or jumps. -/
theorem start_le_of_execute {op : Operation} {words after : WordMachine w}
    (hstart : ctx.start ≤ words.pos) (h : execute ctx words op = .ok (.next after)) :
    ctx.start ≤ after.pos := by
  cases op with
  | jump offset => exact start_le_of_jump h
  | jumpIf offset =>
      obtain ⟨pos, _ | ⟨word, rest⟩⟩ := words
      · cases h
      · simp only [execute] at h
        split at h
        · cases h
          exact hstart
        · exact start_le_of_jump h
  | name reg =>
      obtain ⟨column, -, h⟩ := bind_eq_ok_iff.mp h
      cases h
  | finish => obtain ⟨pos, _ | ⟨word, rest⟩⟩ := words <;> cases h
  | _ =>
      obtain ⟨stack, -, h⟩ := bind_eq_ok_iff.mp h
      unfold grow at h
      split at h <;> cases h
      exact hstart

theorem start_le_of_step (hsize : ctx.target.arch.addressSize ≤ 8) {words after : WordMachine w}
    (hstart : ctx.start ≤ words.pos) (hstep : words.step ctx = .ok (.next after)) :
    ctx.start ≤ after.pos := by
  unfold step proceed at hstep
  cases hread : readOperation ctx.target words.pos with
  | error e next =>
      rw [hread] at hstep
      cases hstep
  | ok op next =>
      rw [hread] at hstep
      have hself : ctx.target.AgreeOn ctx.target words.pos ctx.stop := fun _ _ _ => rfl
      obtain ⟨hforward, -⟩ :=
        readOperation_echoes ⟨rfl, hsize⟩ hself hread (complete_of_execute hstep)
      exact start_le_of_execute (UInt64.le_trans hstart hforward) hstep

/-- The machines that begin an operation, of at most `budget`. -/
def visited (ctx : Context) : Nat → WordMachine w → List (WordMachine w)
  | 0, _ => []
  | budget + 1, words =>
      if words.pos < ctx.stop then
        words :: match words.step ctx with
          | .ok (.next after) => visited ctx budget after
          | _ => []
      else
        []

theorem visited_inside (hsize : ctx.target.arch.addressSize ≤ 8) {budget : Nat}
    {words : WordMachine w} (hstart : ctx.start ≤ words.pos) :
    ∀ machine ∈ visited ctx budget words, ctx.start ≤ machine.pos ∧ machine.pos < ctx.stop := by
  induction budget generalizing words with
  | zero => exact fun _ hmem => by cases hmem
  | succ budget ih =>
      intro machine hmem
      unfold visited at hmem
      split at hmem
      · rename_i hinside
        rcases List.mem_cons.mp hmem with rfl | hmem
        · exact ⟨hstart, hinside⟩
        · split at hmem
          · rename_i after hstep
            exact ih (start_le_of_step hsize hstart hstep) machine hmem
          · cases hmem
      · cases hmem

theorem run_congr (hkind : ctx.target.SameKind second)
    (hagree : ctx.target.AgreeOn second ctx.start ctx.stop) {budget : Nat}
    {words : WordMachine w} (hstart : ctx.start ≤ words.pos)
    (henclosed : ∀ machine ∈ visited ctx budget words, machine.Enclosed ctx second) :
    words.run ctx budget = words.run (ctx.inTarget second) budget := by
  induction budget generalizing words with
  | zero => rfl
  | succ budget ih =>
      have hstop : (ctx.inTarget second).stop = ctx.stop := rfl
      unfold run
      rw [hstop]
      by_cases hinside : words.pos < ctx.stop
      · rw [if_pos hinside, if_pos hinside]
        rw [visited, if_pos hinside] at henclosed
        have hstep := step_congr hkind (hagree.mono hstart) (henclosed words List.mem_cons_self)
        rw [← hstep]
        split
        · rfl
        · rfl
        · rename_i after hafter
          rw [hafter] at henclosed
          exact ih (start_le_of_step hkind.size_le hstart hafter) fun machine hmem =>
            henclosed machine (List.mem_cons_of_mem _ hmem)
      · rw [if_neg hinside, if_neg hinside]

end WordMachine

/-! ## Evaluations -/

/-- The machines that begin an operation of the expression at an address. -/
def operationsAt (target : Target) (locs : Column → Location) (start stop : UInt64)
    (word : Option UInt64) : List (WordMachine target.arch.wordBits) :=
  (WordMachine.start target.arch.wordBits start word).visited ⟨target, locs, start, stop⟩
    maxOperations

theorem start_le_programEnd {start length stop : UInt64} (h : programEnd start length = .ok stop) :
    start ≤ stop := by
  unfold programEnd at h
  split at h
  · rename_i sum hsum
    cases h
    have := toNat_checkedAdd hsum
    rw [UInt64.le_iff_toNat_le]
    omega
  · cases h

theorem evaluate_congr (hkind : first.SameKind second) {locs : Column → Location}
    {addr length start stop : UInt64} {word : Option UInt64}
    (hlength : first.readULeb128 addr = .ok length start)
    (hend : programEnd start length = .ok stop) (hagree : first.AgreeOn second addr stop)
    (henclosed : ∀ machine ∈ operationsAt first locs start stop word,
      machine.Enclosed ⟨first, locs, start, stop⟩ second) :
    evaluate first locs addr word = evaluate second locs addr word := by
  obtain ⟨hle, hecho⟩ :=
    Target.readULeb128_echoes first second stop addr hagree length start hlength
  rw [evaluate_eq_evaluateOnWords, evaluate_eq_evaluateOnWords]
  unfold evaluateOnWords
  rw [hlength, hecho (start_le_programEnd hend)]
  simp only [hend, ok_bind]
  rw [← hkind.arch_eq]
  exact @WordMachine.run_congr _ second ⟨first, locs, start, stop⟩ hkind (hagree.mono hle) _ _
    (UInt64.le_refl _) henclosed

end StackWalk.Expression
