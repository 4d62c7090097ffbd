import Mathlib.Tactic
import StackWalk.Proofs.Cfi.EntryErrors
import StackWalk.Proofs.Cfi.MemoryOnly
import StackWalk.Region

/-!
# Why an entry has no row

The programs of an entry fail when they cannot be read or are malformed, when
they name a register that does not exist, and when they put more aside than
there is room for.  They never say that an address has no unwind information,
and neither do the operations of a region.
-/

namespace StackWalk

open UnwindError

namespace RuleTable

theorem get_hasInfo {table : RuleTable} {reg : UInt64} {e : UnwindError}
    (h : table.get reg = .error e) : e.HasInfo := by
  unfold get at h
  split at h <;> cases h
  trivial

theorem set_hasInfo {table : RuleTable} {reg : UInt64} {rule : RegisterRule} {e : UnwindError}
    (h : table.set reg rule = .error e) : e.HasInfo := by
  unfold set at h
  split at h <;> cases h
  trivial

end RuleTable

namespace Workspace

theorem push_hasInfo {ws : Workspace} {table : RuleTable} {e : UnwindError}
    (h : ws.push table = .error e) : e.HasInfo := by
  unfold push at h
  split at h <;> cases h
  trivial

theorem pop_hasInfo {ws : Workspace} {e : UnwindError} (h : ws.pop = .error e) : e.HasInfo := by
  unfold pop at h
  split at h <;> cases h
  trivial

theorem label_hasInfo {ws : Workspace} {name : UInt64} {table : RuleTable} {e : UnwindError}
    (h : ws.label name table = .error e) : e.HasInfo := by
  unfold label at h
  split at h
  · cases h
  · split at h <;> cases h
    trivial

theorem labeled_hasInfo {ws : Workspace} {name : UInt64} {e : UnwindError}
    (h : ws.labeled name = .error e) : e.HasInfo := by
  unfold labeled at h
  split at h <;> cases h
  trivial

end Workspace

namespace Cfi

/-! ## Decoding -/

section Decoding

variable {target : Target} (hmemory : target.FailsUnreadable)

theorem blockEnd_ofEntry {stop body length : UInt64} {e : UnwindError}
    (h : blockEnd stop body length = .error e) : e.OfEntry := by
  unfold blockEnd at h
  split at h
  · split at h <;> cases h
    trivial
  · cases h
    trivial

include hmemory

theorem readBlock_failsWith (stop : UInt64) : (readBlock target stop).FailsWith OfEntry :=
  .bind .get fun _ => .bind (Target.readULeb128_failsWith hmemory) fun _ => .bind .get fun _ =>
    .bind (.lift fun _ => blockEnd_ofEntry) fun _ => .bind (.set _) fun _ => .pure _

theorem decodeExtended_failsWith (ctx : ProgramContext) (opcode : UInt8) :
    (decodeExtended target ctx opcode).FailsWith OfEntry := by
  have uleb := Target.readULeb128_failsWith hmemory
  have sleb := Target.readSLeb128_failsWith hmemory
  have block := readBlock_failsWith hmemory ctx.stop
  unfold decodeExtended
  split
  case h_2 => exact .map _ (Target.readPointer_failsWith hmemory _ _)
  case h_3 => exact .map _ (Target.readU8_failsWith hmemory)
  case h_4 | h_5 => exact .map _ (Target.readUInt_failsWith hmemory _)
  case h_27 => exact .throw trivial
  all_goals
    first
      | exact .pure _
      | exact .map _ (by assumption)
      | exact .bind (by assumption) fun _ => .bind (by assumption) fun _ => .pure _

theorem decode_failsWith (ctx : ProgramContext) : (decode target ctx).FailsWith OfEntry := by
  refine .bind (Target.readU8_failsWith hmemory) fun opcode => ?_
  unfold decodeOperands
  split
  · exact .pure _
  · exact .map _ (Target.readULeb128_failsWith hmemory)
  · exact .pure _
  · exact decodeExtended_failsWith hmemory ctx opcode

theorem ofEntry_of_mem_listing {ctx : ProgramContext} {pos : UInt64} {e : UnwindError}
    (h : .error e ∈ listing target ctx pos) : e.OfEntry := by
  induction pos using listing.induct target ctx with
  | case1 pos hin instruction next hdecode ih =>
      rw [listing_eq, if_pos hin, hdecode] at h
      rcases List.mem_cons.mp h with hfirst | hrest
      · cases hfirst
      · exact ih hrest
  | case2 pos hin e' next hdecode =>
      rw [listing_eq, if_pos hin, hdecode] at h
      cases List.mem_singleton.mp h
      exact decode_failsWith hmemory ctx _ _ _ hdecode
  | case3 pos hout =>
      rw [listing_eq, if_neg hout] at h
      cases h

end Decoding

/-! ## Executing -/

/-- An execution that does not fail for want of unwind information. -/
abbrev Informed {α : Type} (action : Action Execution α) : Prop :=
  action.FailsWith HasInfo

theorem modifyCurrent_informed {change : RuleTable → Except UnwindError RuleTable}
    (h : ∀ table e, change table = .error e → e.HasInfo) : Informed (modifyCurrent change) :=
  .bind .get fun exec => .bind (.lift (h exec.row.current)) fun _ => .set _

theorem setRule_informed (reg : UInt64) (rule : RegisterRule) : Informed (setRule reg rule) :=
  modifyCurrent_informed fun _ _ => RuleTable.set_hasInfo

theorem setCfa_informed (rule : CfaRule) : Informed (setCfa rule) :=
  modifyCurrent_informed fun _ _ h => by cases h

theorem setCfaRegister_informed (register : Column) :
    Informed (modifyCurrent (setCfaRegister register)) := by
  refine modifyCurrent_informed fun table e h => ?_
  unfold setCfaRegister at h
  split at h <;> cases h
  trivial

theorem setCfaOffset_informed (offset : Int64) : Informed (modifyCurrent (setCfaOffset offset)) := by
  refine modifyCurrent_informed fun table e h => ?_
  unfold setCfaOffset at h
  split at h <;> cases h
  trivial

theorem saveWindow_informed (wordSize : UInt64) (regs : List Nat) :
    Informed (saveWindow wordSize regs) := by
  induction regs with
  | nil => exact .pure _
  | cons reg rest ih => exact .bind (setRule_informed _ _) fun _ => ih

theorem checked_informed {α : Type} {arch : Arch} {reg : UInt64} {f : Column → Action Execution α}
    (h : ∀ column, Informed (f column)) : Informed (do f (← arch.checkReg reg)) :=
  .bind (.lift fun _ he => (checkReg_ofEntry he).hasInfo) h

theorem execute_informed (factors : Factors) (instruction : Instruction) :
    Informed (execute factors instruction) := by
  cases instruction with
  | defCfa | defCfaFactored => exact checked_informed fun _ => setCfa_informed _
  | defCfaRegister => exact checked_informed fun _ => setCfaRegister_informed _
  | defCfaOffset | defCfaOffsetFactored => exact setCfaOffset_informed _
  | defCfaExpression => exact setCfa_informed _
  | undefined | sameValue | offset | offsetSigned | valOffset | valOffsetSigned | expression
  | valExpression | negativeOffset => exact setRule_informed _ _
  | register => exact checked_informed fun _ => setRule_informed _ _
  | restore =>
      exact .bind .get fun _ => .bind (.lift fun _ => RuleTable.get_hasInfo) fun _ =>
        setRule_informed _ _
  | rememberState =>
      exact .bind .get fun _ => .bind (.lift fun _ => Workspace.push_hasInfo) fun _ => .set _
  | restoreState =>
      exact .bind .get fun _ => .bind (.lift fun _ => Workspace.pop_hasInfo) fun _ => .set _
  | windowSave =>
      simp only [execute]
      split
      · exact saveWindow_informed _ _
      · exact .of_modify _
      · exact .throw trivial
  | setLoc | advanceLoc | argsSize => exact .of_modify _
  | nop => exact .pure _

theorem run_informed (factors : Factors) (last : UInt64)
    {items : List (Except UnwindError Instruction)}
    (h : ∀ e, .error e ∈ items → e.HasInfo) : Informed (run factors last items) := by
  induction items with
  | nil => exact .pure _
  | cons item rest ih =>
      refine .bind .get fun _ => .ite (.bind (.lift fun e he => ?_) fun _ =>
        .bind (execute_informed _ _) fun _ => ?_) (.pure _)
      · exact h e (he ▸ List.mem_cons_self)
      · exact ih fun e he => h e (List.mem_cons_of_mem _ he)

theorem rowAt_hasInfo {target : Target} (hmemory : target.FailsUnreadable) {ws : Workspace}
    {fde : Fde} {ip : UInt64} {bases : PointerBases} {e : UnwindError}
    (h : (rowAt target ws fde ip bases).1 = .error e) : e.HasInfo := by
  have hprogram (program : Span) (start last : UInt64) :
      Informed (fde.cie.runProgram target bases program start last) :=
    .bind (.of_modify _) fun _ =>
      run_informed _ _ fun _ he => (ofEntry_of_mem_listing hmemory he).hasInfo
  have hentry : Informed (runEntry target fde ip bases) :=
    .bind (hprogram _ _ _) fun _ => .bind (.of_modify _) fun _ => hprogram _ _ _
  unfold rowAt at h
  dsimp only at h
  generalize hrun : (runEntry target fde ip bases).perform _ = outcome at h
  obtain ⟨answer, after⟩ := outcome
  cases answer with
  | ok done => cases h
  | error e' =>
      cases h
      exact hentry.of_answer (congrArg Prod.fst hrun)

end Cfi

/-! ## Regions -/

namespace Region

theorem checkColumn_hasInfo {arch : Arch} {reg : Column} {e : UnwindError}
    (h : arch.checkColumn reg = .error e) : e.HasInfo := by
  unfold Arch.checkColumn at h
  split at h <;> cases h
  trivial

theorem execute_hasInfo {arch : Arch} {row : Row} {ws : Workspace} {effect : RegionEffect}
    {e : UnwindError} (h : execute arch row ws effect = .error e) : e.HasInfo := by
  cases effect with
  | defCfa register offset =>
      rcases bind_eq_error_iff.mp h with hcolumn | ⟨column, -, ⟨⟩⟩
      exact checkColumn_hasInfo hcolumn
  | saveReg register target =>
      rcases bind_eq_error_iff.mp h with hcolumn | ⟨column, -, h⟩
      · exact checkColumn_hasInfo hcolumn
      · rcases bind_eq_error_iff.mp h with hset | ⟨table, -, ⟨⟩⟩
        exact RuleTable.set_hasInfo hset
  | spill register offset =>
      rcases bind_eq_error_iff.mp h with hset | ⟨table, -, ⟨⟩⟩
      exact RuleTable.set_hasInfo hset
  | restore register =>
      rcases bind_eq_error_iff.mp h with hget | ⟨rule, -, h⟩
      · exact RuleTable.get_hasInfo hget
      · rcases bind_eq_error_iff.mp h with hset | ⟨table, -, ⟨⟩⟩
        exact RuleTable.set_hasInfo hset
  | labelState label =>
      rcases bind_eq_error_iff.mp h with hlabel | ⟨after, -, ⟨⟩⟩
      exact Workspace.label_hasInfo hlabel
  | copyState label =>
      rcases bind_eq_error_iff.mp h with hlabeled | ⟨table, -, ⟨⟩⟩
      exact Workspace.labeled_hasInfo hlabeled
  | stop =>
      cases h
      trivial

theorem run_hasInfo {arch : Arch} {predicates : Predicates} {ops : List RegionOp} {row : Row}
    {ws : Workspace} {e : UnwindError} (h : (run arch predicates ops row ws).1 = .error e) :
    e.HasInfo := by
  induction ops generalizing row ws with
  | nil => cases h
  | cons op rest ih =>
      unfold run at h
      split at h
      · cases hstep : execute arch row ws op.effect with
        | error e' =>
            rw [hstep] at h
            cases h
            exact execute_hasInfo hstep
        | ok next =>
            rw [hstep] at h
            exact ih h
      · exact ih h

/-- An address of the region has unwind information. -/
theorem rowAt_hasInfo {arch : Arch} {ws : Workspace} {region : Region} {ip : UInt64}
    {predicates : Predicates} {e : UnwindError} (hip : region.contains ip = true)
    (h : (region.rowAt arch ws ip predicates).1 = .error e) : e.HasInfo := by
  unfold rowAt at h
  rw [if_pos hip] at h
  cases hcolumn : arch.checkColumn region.returnAddress with
  | error e' =>
      rw [hcolumn] at h
      cases h
      exact checkColumn_hasInfo hcolumn
  | ok returnAddress =>
      rw [hcolumn] at h
      exact run_hasInfo h

end Region
end StackWalk
