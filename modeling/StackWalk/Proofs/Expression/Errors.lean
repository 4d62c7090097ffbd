import Mathlib.Tactic
import StackWalk.Caller
import StackWalk.Proofs.Cfi.EntryErrors

/-!
# Why an expression fails

An expression fails when what it reads cannot be read, when it names a register
that does not exist, or when it is malformed.  It never says that an address
has no unwind information.
-/

namespace StackWalk

open UnwindError

/-- Memory that cannot be read says so, and no register says that an address
has no unwind information. -/
structure Target.FailsPlainly (target : Target) : Prop where
  memory : target.FailsUnreadable
  registers : ∀ reg e, target.loadReg reg = .error e → e.HasInfo

variable {target : Target}

theorem Target.readWord_hasInfo (htarget : target.FailsPlainly) {addr : UInt64} {e : UnwindError}
    (h : target.readWord addr = .error e) : e.HasInfo := by
  rcases bind_eq_error_iff.mp h with hload | ⟨word, -, ⟨⟩⟩
  obtain ⟨unread, rfl⟩ := htarget.memory addr e hload
  trivial

theorem Location.read_hasInfo (htarget : target.FailsPlainly) {loc : Location} {reg : Column}
    {e : UnwindError} (h : loc.read target reg = .error e) : e.HasInfo := by
  cases loc with
  | lost =>
      cases h
      trivial
  | register source fp => exact htarget.registers source e h
  | memory addr fp => exact Target.readWord_hasInfo htarget h
  | value word => cases h

namespace Expression

/-- A run that does not fail for want of unwind information. -/
abbrev Run.Informed {α : Type} (run : Run α) : Prop :=
  Action.FailsWith HasInfo run

theorem operand_informed {α : Type} {scan : Scan α} (h : scan.FailsWith OfEntry) :
    (operand scan).Informed :=
  .zoom (h.mono fun _ => OfEntry.hasInfo)

theorem pop_informed : pop.Informed := by
  refine .bind .get fun machine => ?_
  split
  · exact .throw trivial
  · exact .bind (.set _) fun _ => .pure _

variable {ctx : Context}

theorem push_informed (word : UInt64) : (push ctx word).Informed :=
  .bind .get fun _ => .ite (.set _) (.throw trivial)

theorem copyCell_informed (index : Nat) : (copyCell ctx index).Informed := by
  refine .bind (.bind .get fun machine => ?_) fun cell => push_informed cell
  split
  · exact .pure _
  · exact .throw trivial

theorem nameRegister_informed (reg : UInt64) : (nameRegister ctx reg).Informed :=
  .bind (.lift fun _ h => (Cfi.checkReg_ofEntry h).hasInfo) fun _ => .pure _

theorem branch_informed (offset : UInt64) : (branch ctx offset).Informed :=
  .bind .get fun _ => .ite (.throw trivial) (.set _)

theorem unary_informed (op : UnaryOp) : (unary ctx op).Informed :=
  .bind pop_informed fun _ => push_informed _

theorem binaryOp_hasInfo {op : BinaryOp} {bits : Nat} {a b : UInt64} {e : UnwindError}
    (h : op.apply bits a b = .error e) : e.HasInfo := by
  unfold BinaryOp.apply at h
  split at h
  case h_2 | h_4 =>
    split at h <;> cases h
    trivial
  all_goals cases h

theorem binary_informed (op : BinaryOp) : (binary ctx op).Informed :=
  .bind pop_informed fun _ => .bind pop_informed fun _ =>
    .bind (.lift fun _ => binaryOp_hasInfo) fun _ => push_informed _

theorem constant_informed {scan : Scan UInt64} (h : scan.FailsWith OfEntry) :
    (constant ctx scan).Informed :=
  .bind (operand_informed h) fun _ => push_informed _

section Operations

variable (hctx : ctx.target.FailsPlainly)

include hctx

theorem pushRegister_informed (reg : UInt64) (offset : Int64) :
    (pushRegister ctx reg offset).Informed := by
  refine .bind (.lift fun e he => ?_) fun value => push_informed _
  rcases bind_eq_error_iff.mp he with hcolumn | ⟨column, -, hread⟩
  · exact (Cfi.checkReg_ofEntry hcolumn).hasInfo
  · exact Location.read_hasInfo hctx hread

theorem derefSize_informed (size : Nat) : (derefSize ctx size).Informed := by
  refine .ite (.throw trivial) (.bind pop_informed fun addr => .bind (.lift fun e he => ?_) fun _ =>
    push_informed _)
  exact ((Target.readUInt_failsWith hctx.memory size).of_answer he).hasInfo

theorem stackOperation_informed (opcode : UInt8) : (stackOperation ctx opcode).Informed := by
  have byte := Target.readU8_failsWith hctx.memory
  have uleb := Target.readULeb128_failsWith hctx.memory
  have sleb := Target.readSLeb128_failsWith hctx.memory
  have number (size : Nat) := Target.readUInt_failsWith hctx.memory size
  unfold stackOperation
  dsimp only
  split
  case h_1 => exact constant_informed (Target.readTargetWord_failsWith hctx.memory)
  case h_2 =>
    exact .bind pop_informed fun _ => .bind (.lift fun _ => Target.readWord_hasInfo hctx) fun _ =>
      push_informed _
  case h_14 => exact .bind pop_informed fun _ => .pure _
  case h_16 => exact .bind (operand_informed byte) fun _ => copyCell_informed _
  case h_17 =>
    exact .bind pop_informed fun _ => .bind pop_informed fun _ =>
      .bind (push_informed _) fun _ => push_informed _
  case h_18 =>
    exact .bind pop_informed fun _ => .bind pop_informed fun _ => .bind pop_informed fun _ =>
      .bind (push_informed _) fun _ => .bind (push_informed _) fun _ => push_informed _
  case h_19 =>
    exact .bind pop_informed fun _ => .bind (operand_informed uleb) fun _ => push_informed _
  case h_20 =>
    exact .bind (operand_informed (.map _ (number 2))) fun _ => .bind pop_informed fun _ =>
      .ite (branch_informed _) (.pure _)
  case h_21 => exact .bind (operand_informed (.map _ (number 2))) fun _ => branch_informed _
  case h_22 =>
    exact .bind (operand_informed uleb) fun _ => .bind (operand_informed sleb) fun _ =>
      pushRegister_informed hctx _ _
  case h_23 => exact .bind (operand_informed byte) fun _ => derefSize_informed hctx _
  case h_24 => exact .pure _
  case h_25 =>
    split
    · exact binary_informed _
    · exact unary_informed _
    · exact .ite (push_informed _)
        (.ite (.bind (operand_informed sleb) fun _ => pushRegister_informed hctx _ _)
          (.throw trivial))
  all_goals
    first
      | exact copyCell_informed _
      | exact constant_informed (number _)
      | exact constant_informed uleb
      | exact constant_informed (.map _ (number _))
      | exact constant_informed (.map _ byte)
      | exact constant_informed (.map _ sleb)

theorem operation_informed : (operation ctx).Informed := by
  refine .bind (operand_informed (Target.readU8_failsWith hctx.memory)) fun opcode => ?_
  refine .ite (.map _ (nameRegister_informed _)) (.ite ?_ (.ite ?_ ?_))
  · exact .bind (operand_informed (Target.readULeb128_failsWith hctx.memory)) fun _ =>
      .map _ (nameRegister_informed _)
  · exact .bind pop_informed fun _ => .pure _
  · exact .bind (stackOperation_informed hctx opcode) fun _ => .pure _

theorem runOperations_informed (budget : Nat) : (runOperations ctx budget).Informed := by
  have htop : Run.Informed (do return .address (← pop) : Run Result) :=
    .bind pop_informed fun _ => .pure _
  induction budget with
  | zero => exact .bind .get fun _ => .ite (.throw trivial) htop
  | succ budget ih =>
      refine .bind .get fun _ => .ite (.bind (operation_informed hctx) fun answer => ?_) htop
      cases answer with
      | some result => exact .pure _
      | none => exact ih

end Operations

theorem evaluate_hasInfo (htarget : target.FailsPlainly) {locs : Column → Location}
    {addr : UInt64} {first : Option UInt64} {e : UnwindError} (h : evaluate target locs addr first = .error e) : e.HasInfo := by
  unfold evaluate at h
  split at h
  · rename_i e' next hlength
    cases h
    exact (Target.readULeb128_failsWith htarget.memory _ _ _ hlength).hasInfo
  · rename_i length start hlength
    rcases bind_eq_error_iff.mp h with hend | ⟨stop, -, hrun⟩
    · unfold programEnd at hend
      split at hend <;> cases hend
      trivial
    · cases first with
      | none => exact (runOperations_informed htarget _).of_answer hrun
      | some word =>
          have hrest : Run.Informed (do
              push ⟨target, locs, start, stop⟩ word
              runOperations ⟨target, locs, start, stop⟩ maxOperations) :=
            .bind (push_informed word) fun _ => runOperations_informed htarget _
          exact hrest.of_answer hrun

end Expression

/-! ## Applying rules -/

variable (htarget : target.FailsPlainly)

include htarget

theorem resolveCfa_hasInfo {locs : Locations} {rule : CfaRule} {e : UnwindError}
    (h : resolveCfa target locs rule = .error e) : e.HasInfo := by
  cases rule with
  | registerOffset register offset =>
      rcases bind_eq_error_iff.mp h with hread | ⟨base, -, ⟨⟩⟩
      exact Location.read_hasInfo htarget hread
  | expression addr =>
      rcases bind_eq_error_iff.mp h with hevaluate | ⟨result, -, hresult⟩
      · exact Expression.evaluate_hasInfo htarget hevaluate
      · cases result with
        | address word | value word => cases hresult
        | register reg => exact Location.read_hasInfo htarget hresult

theorem resolveRule_hasInfo {locs : Locations} {cfa : UInt64} {reg : Column}
    {rule : RegisterRule} {e : UnwindError}
    (h : resolveRule target locs cfa reg rule = .error e) : e.HasInfo := by
  cases rule with
  | undefined | sameValue | cfaRelative offset | valCfaRelative offset | inRegister source =>
      cases h
  | expression addr =>
      rcases bind_eq_error_iff.mp h with hevaluate | ⟨result, -, hresult⟩
      · exact Expression.evaluate_hasInfo htarget hevaluate
      · cases result <;> cases hresult
  | valExpression addr =>
      rcases bind_eq_error_iff.mp h with hevaluate | ⟨result, -, hresult⟩
      · exact Expression.evaluate_hasInfo htarget hevaluate
      · cases result with
        | address word | value word => cases hresult
        | register source =>
            rcases bind_eq_error_iff.mp hresult with hread | ⟨word, -, ⟨⟩⟩
            exact Location.read_hasInfo htarget hread

theorem resolveRules_hasInfo {locs : Locations} {cfa : UInt64}
    {rules : List (Column × RegisterRule)} {caller : Locations} {e : UnwindError}
    (h : resolveRules target locs cfa rules caller = .error e) : e.HasInfo := by
  induction rules generalizing caller with
  | nil => cases h
  | cons entry rest ih =>
      rcases bind_eq_error_iff.mp h with hrule | ⟨loc, -, hrest⟩
      · exact resolveRule_hasInfo htarget hrule
      · exact ih hrest

theorem applyRules_hasInfo {locs : Locations} {cfaRule : CfaRule}
    {rules : List (Column × RegisterRule)} {e : UnwindError}
    (h : applyRules target locs cfaRule rules = .error e) : e.HasInfo := by
  rcases bind_eq_error_iff.mp h with hcfa | ⟨cfa, -, h⟩
  · exact resolveCfa_hasInfo htarget hcfa
  · rcases bind_eq_error_iff.mp h with hrules | ⟨caller, -, hanswer⟩
    · exact resolveRules_hasInfo htarget hrules
    · split at hanswer <;> cases hanswer

end StackWalk
