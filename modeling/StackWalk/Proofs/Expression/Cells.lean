import Mathlib.Tactic
import StackWalk.Expression
import StackWalk.Proofs.Action
import StackWalk.Proofs.Word

/-!
# The cells of a running expression

A word is cut to the width of the target when it is put on the stack, and
nothing else puts words there.  So all cells are words of the target whatever
an expression does, and what it computes is one of them or a register.
-/

namespace StackWalk.Expression

variable {α β : Type} {arch : Arch} {ctx : Context}

def Machine.Fits (arch : Arch) (machine : Machine) : Prop :=
  ∀ cell ∈ machine.stack, cell ≤ arch.wordMask

/-- Begun with words of the target on the stack, the run ends with such there
and an answer that `post` allows. -/
def Confined (arch : Arch) (run : Run α) (post : α → Prop) : Prop :=
  ∀ machine : Machine, machine.Fits arch →
    Action.Ensures run machine fun a after => post a ∧ after.Fits arch

namespace Confined

theorem pure {a : α} {post : α → Prop} (h : post a) :
    Confined arch (Pure.pure a) post :=
  fun _ hfits => .pure ⟨h, hfits⟩

theorem throw {e : UnwindError} {post : α → Prop} :
    Confined arch (MonadExcept.throw e : Run α) post :=
  fun _ _ => .throw

theorem bind {run : Run α} {f : α → Run β} {mid : α → Prop} {post : β → Prop}
    (hrun : Confined arch run mid) (hf : ∀ a, mid a → Confined arch (f a) post) :
    Confined arch (run >>= f) post :=
  fun machine hfits => .bind (hrun machine hfits) fun a next hnext => hf a hnext.1 next hnext.2

theorem mono {run : Run α} {strong weak : α → Prop} (h : Confined arch run strong)
    (himp : ∀ a, strong a → weak a) : Confined arch run weak :=
  fun machine hfits => (h machine hfits).mono fun a _ hafter => ⟨himp a hafter.1, hafter.2⟩

theorem map {run : Run α} {f : α → β} {mid : α → Prop} {post : β → Prop}
    (h : Confined arch run mid) (hf : ∀ a, mid a → post (f a)) :
    Confined arch (f <$> run) post := by
  rw [map_eq_pure_bind]
  exact bind h fun a ha => pure (hf a ha)

theorem lift (given : Except UnwindError α) :
    Confined arch (liftM given : Run α) fun a => given = .ok a := by
  intro machine hfits
  refine Action.Ensures.ofExcept.mono ?_
  rintro a after ⟨hanswer, rfl⟩
  exact ⟨hanswer, hfits⟩

theorem get_bind {f : Machine → Run α} {post : α → Prop}
    (h : ∀ machine : Machine, machine.Fits arch →
      Action.Ensures (f machine) machine fun a after => post a ∧ after.Fits arch) :
    Confined arch (get >>= f) post :=
  fun machine hfits => h machine hfits

end Confined

theorem operand_confined (scan : Scan α) : Confined arch (operand scan) fun _ => True := by
  intro machine hfits a after hrun
  unfold operand Action.zoom at hrun
  split at hrun <;> cases hrun
  exact ⟨trivial, hfits⟩

theorem push_confined (word : UInt64) :
    Confined ctx.target.arch (push ctx word) fun _ => True := by
  apply Confined.get_bind
  intro machine hfits
  split
  · intro a after hrun
    cases hrun
    refine ⟨trivial, ?_⟩
    intro cell hcell
    rcases List.mem_cons.mp hcell with rfl | hcell
    · exact Arch.and_wordMask_le _ _
    · exact hfits cell hcell
  · exact .throw

theorem pop_confined : Confined arch pop fun cell => cell ≤ arch.wordMask := by
  apply Confined.get_bind
  intro machine hfits
  cases hstack : machine.stack with
  | nil => exact .throw
  | cons cell rest =>
      intro a after hrun
      cases hrun
      rw [Machine.Fits, hstack] at hfits
      exact ⟨hfits cell List.mem_cons_self, fun other hother =>
        hfits other (List.mem_cons_of_mem _ hother)⟩

theorem pick_confined (index : Nat) : Confined arch (pick index) fun _ => True := by
  apply Confined.get_bind
  intro machine hfits
  cases machine.stack[index]? with
  | none => exact .throw
  | some cell => exact .pure ⟨trivial, hfits⟩

theorem copyCell_confined (index : Nat) :
    Confined ctx.target.arch (copyCell ctx index) fun _ => True :=
  .bind (pick_confined index) fun cell _ => push_confined cell

theorem pushRegister_confined (reg : UInt64) (offset : Int64) :
    Confined ctx.target.arch (pushRegister ctx reg offset) fun _ => True :=
  .bind (.lift _) fun _ _ => push_confined _

theorem nameRegister_confined (reg : UInt64) :
    Confined ctx.target.arch (nameRegister ctx reg) fun result =>
      ∃ column < ctx.target.arch.numRegs, result = .register column := by
  refine .bind (.lift _) fun column hcolumn => .pure ⟨column, ?_, rfl⟩
  obtain ⟨hlt, rfl⟩ := Arch.checkReg_eq_ok_iff.mp hcolumn
  exact hlt

theorem branch_confined (offset : UInt64) :
    Confined arch (branch ctx offset) fun _ => True := by
  apply Confined.get_bind
  intro machine hfits
  dsimp only
  split
  · exact .throw
  · intro a after hrun
    cases hrun
    exact ⟨trivial, hfits⟩

theorem derefSize_confined (size : Nat) :
    Confined ctx.target.arch (derefSize ctx size) fun _ => True := by
  unfold derefSize
  split
  · exact .throw
  · exact .bind pop_confined fun _ _ => .bind (.lift _) fun value _ => push_confined value

theorem unary_confined (op : UnaryOp) :
    Confined ctx.target.arch (unary ctx op) fun _ => True :=
  .bind pop_confined fun _ _ => push_confined _

theorem binary_confined (op : BinaryOp) :
    Confined ctx.target.arch (binary ctx op) fun _ => True :=
  .bind pop_confined fun _ _ => .bind pop_confined fun _ _ =>
    .bind (.lift _) fun value _ => push_confined value

theorem constant_confined (scan : Scan UInt64) :
    Confined ctx.target.arch (constant ctx scan) fun _ => True :=
  .bind (operand_confined scan) fun value _ => push_confined value

theorem stackOperation_confined (opcode : UInt8) :
    Confined ctx.target.arch (stackOperation ctx opcode) fun _ => True := by
  unfold stackOperation
  dsimp only
  split
  any_goals exact constant_confined _
  any_goals exact copyCell_confined _
  case h_2 => exact .bind pop_confined fun _ _ => .bind (.lift _) fun word _ => push_confined word
  case h_14 => exact pop_confined.map fun _ _ => trivial
  case h_16 => exact .bind (operand_confined _) fun index _ => copyCell_confined _
  case h_17 =>
    exact .bind pop_confined fun a _ => .bind pop_confined fun b _ =>
      .bind (push_confined a) fun _ _ => push_confined b
  case h_18 =>
    exact .bind pop_confined fun a _ => .bind pop_confined fun b _ => .bind pop_confined fun c _ =>
      .bind (push_confined a) fun _ _ => .bind (push_confined c) fun _ _ => push_confined b
  case h_19 =>
    exact .bind pop_confined fun _ _ => .bind (operand_confined _) fun _ _ => push_confined _
  case h_20 =>
    refine .bind (operand_confined _) fun offset _ => .bind pop_confined fun condition _ => ?_
    split
    · exact branch_confined offset
    · exact .pure trivial
  case h_21 => exact .bind (operand_confined _) fun offset _ => branch_confined offset
  case h_22 =>
    exact .bind (operand_confined _) fun reg _ => .bind (operand_confined _) fun offset _ =>
      pushRegister_confined reg offset
  case h_23 => exact .bind (operand_confined _) fun size _ => derefSize_confined _
  case h_24 => exact .pure trivial
  case h_25 =>
    split
    · exact binary_confined _
    · exact unary_confined _
    · split
      · exact push_confined _
      · split
        · exact .bind (operand_confined _) fun offset _ => pushRegister_confined _ offset
        · exact .throw

/-- A word of the target or a register that it has. -/
def Result.Within (arch : Arch) : Result → Prop
  | .address addr => addr ≤ arch.wordMask
  | .register reg => reg < arch.numRegs
  | .value word => word ≤ arch.wordMask

theorem operation_confined :
    Confined ctx.target.arch (operation ctx) fun answer =>
      ∀ result, answer = some result → result.Within ctx.target.arch := by
  have hnamed : ∀ reg, Confined ctx.target.arch (some <$> nameRegister ctx reg) fun answer =>
      ∀ result, answer = some result → result.Within ctx.target.arch := by
    intro reg
    refine (nameRegister_confined reg).map ?_
    rintro _ ⟨column, hlt, rfl⟩ result hresult
    obtain rfl := Option.some.inj hresult
    exact hlt
  refine .bind (operand_confined _) fun opcode _ => ?_
  split
  · exact hnamed _
  · split
    · exact .bind (operand_confined _) fun reg _ => hnamed reg
    · split
      · refine .bind pop_confined fun value hvalue => .pure ?_
        intro result hresult
        obtain rfl := Option.some.inj hresult
        exact hvalue
      · refine .bind (stackOperation_confined opcode) fun _ _ => .pure ?_
        intro result hresult
        cases hresult

theorem runOperations_confined (budget : Nat) :
    Confined ctx.target.arch (runOperations ctx budget) fun result =>
      result.Within ctx.target.arch := by
  have htop : Confined ctx.target.arch (do return .address (← pop) : Run Result) fun result =>
      result.Within ctx.target.arch :=
    .bind pop_confined fun _ hcell => .pure hcell
  induction budget with
  | zero =>
      apply Confined.get_bind
      intro machine hfits
      split
      · exact .throw
      · exact htop machine hfits
  | succ budget ih =>
      apply Confined.get_bind
      intro machine hfits
      split
      · refine Confined.bind operation_confined (fun answer hanswer => ?_) machine hfits
        cases answer with
        | some result => exact .pure (hanswer result rfl)
        | none => exact ih
      · exact htop machine hfits

theorem program_confined (first : Option UInt64) (budget : Nat) :
    Confined ctx.target.arch (do
      if let some word := first then
        push ctx word
      runOperations ctx budget) fun result => result.Within ctx.target.arch := by
  cases first with
  | none => exact runOperations_confined budget
  | some word => exact .bind (push_confined word) fun _ _ => runOperations_confined budget

/-- An expression that ends computes a word of the target or names one of its
registers. -/
theorem evaluate_within {target : Target} {locs : Column → Location} {addr : UInt64}
    {first : Option UInt64} {result : Result}
    (h : evaluate target locs addr first = .ok result) : result.Within target.arch := by
  unfold evaluate at h
  split at h
  · cases h
  · rename_i length start hlength
    obtain ⟨stop, -, h⟩ := bind_eq_ok_iff.mp h
    obtain ⟨after, hrun⟩ := Action.answer_eq_ok h
    have hempty : Machine.Fits target.arch ⟨start, []⟩ := by simp [Machine.Fits]
    have hconfined := @program_confined ⟨target, locs, start, stop⟩ first maxOperations
    exact (hconfined _ hempty result after hrun).1

end StackWalk.Expression
