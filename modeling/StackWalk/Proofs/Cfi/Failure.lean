import Mathlib.Tactic
import StackWalk.Arch.Shipped
import StackWalk.Proofs.Cfi.Instructions

/-!
# What a failed program leaves behind

A program that fails has done what the instructions before the failing one do.
The failing one has changed nothing, with one exception.  A register window is
spilled column by column, so that on a table that ends inside the window the
columns that the table has are spilled before the first that it has not is
found out.
-/

namespace StackWalk.Cfi

variable {factors : Factors} {last : UInt64} {exec after : Execution} {e : UnwindError}

/-! ## One instruction -/

theorem find_windowRegisters_of_le {numRegs : Nat} (h : 32 ≤ numRegs) :
    windowRegisters.find? (numRegs ≤ ·) = none := by
  rw [List.find?_eq_none]
  intro reg hreg
  have hlt : ∀ reg ∈ windowRegisters, reg < 32 := by decide
  have := hlt reg hreg
  simp only [decide_eq_true_eq]
  omega

theorem find_windowRegisters_of_mem {numRegs : Nat} (hlow : 16 ≤ numRegs) (hhigh : numRegs < 32) :
    windowRegisters.find? (numRegs ≤ ·) = some numRegs := by
  interval_cases numRegs <;> rfl

theorem spill_of_le {numRegs : Nat} (h : numRegs ≤ 16) (wordSize : UInt64) (table : RuleTable) :
    spill wordSize (windowRegisters.takeWhile (· < numRegs)) table = table := by
  have hnone : windowRegisters.takeWhile (· < numRegs) = [] := by
    change (16 :: _).takeWhile _ = _
    exact List.takeWhile_cons_of_neg (by simpa using h)
  rw [hnone]
  rfl

/-- The window goes past the end of the table, and begins before it. -/
def Factors.HalfSpills (factors : Factors) (exec : Execution) (instruction : Instruction) : Prop :=
  factors.spills instruction = true ∧ 16 < exec.row.current.numRegs ∧
    exec.row.current.numRegs < 32

/-- The columns of the window that the table has are spilled. -/
def Factors.halfSpilled (factors : Factors) (exec : Execution) : Execution :=
  exec.withCurrent (spill factors.arch.wordSize
    (windowRegisters.takeWhile (· < exec.row.current.numRegs)) exec.row.current)

theorem saveWindow_error {wordSize : UInt64}
    (h : saveWindow wordSize windowRegisters exec = .error e after) :
    after = exec ∨
      (16 < exec.row.current.numRegs ∧ exec.row.current.numRegs < 32) ∧
        after = exec.withCurrent (spill wordSize
          (windowRegisters.takeWhile (· < exec.row.current.numRegs)) exec.row.current) ∧
        e = .badRegister (UInt64.ofNat exec.row.current.numRegs) := by
  rw [saveWindow_apply _ windowRegisters_lt] at h
  cases hfind : windowRegisters.find? (exec.row.current.numRegs ≤ ·) with
  | none =>
      rw [hfind] at h
      cases h
  | some reg =>
      rw [hfind] at h
      obtain ⟨rfl, rfl⟩ : .badRegister (UInt64.ofNat reg) = e ∧ _ = after := by simpa using h
      rcases le_or_gt exec.row.current.numRegs 16 with hlow | hlow
      · left
        rw [spill_of_le hlow]
        rfl
      · right
        have hhigh : exec.row.current.numRegs < 32 := by
          by_contra hhigh
          rw [find_windowRegisters_of_le (not_lt.mp hhigh)] at hfind
          cases hfind
        rw [find_windowRegisters_of_mem hlow.le hhigh] at hfind
        obtain rfl := Option.some.inj hfind
        exact ⟨⟨hlow, hhigh⟩, rfl, rfl⟩

/-- An instruction that fails has changed nothing, unless it spills a window
that the table ends in. -/
theorem execute_error {instruction : Instruction}
    (h : execute factors instruction exec = .error e after) :
    after = exec ∨
      factors.HalfSpills exec instruction ∧ after = factors.halfSpilled exec ∧
        e = .badRegister (UInt64.ofNat exec.row.current.numRegs) := by
  cases working factors instruction with
  | remembers =>
      left
      rw [execute_remember] at h
      split at h <;> cases h
      rfl
  | restores =>
      left
      rw [execute_restore] at h
      split at h <;> cases h
      rfl
  | spills hkind =>
      have hspills : factors.spills .windowSave = true := by simpa [Factors.spills] using hkind
      simp only [execute, hkind] at h
      rcases saveWindow_error h with hsame | ⟨hinside, hafter, he⟩
      · exact .inl hsame
      · exact .inr ⟨⟨hspills, hinside⟩, hafter, he⟩
  | performs hperforms =>
      left
      rw [hperforms exec] at h
      split at h <;> cases h
      rfl

/-! ## Programs -/

/-- A program that fails has run up to an item that it fails at. -/
theorem fails_at_of_run {items : List (Except UnwindError Instruction)}
    (hrun : run factors last items exec = .error e after) :
    ∃ before item rest mid, items = before ++ item :: rest ∧
      run factors last before exec = .ok () mid ∧ mid.loc ≤ last ∧
      run factors last [item] mid = .error e after := by
  induction items generalizing exec with
  | nil => cases hrun
  | cons item rest ih =>
      by_cases hloc : exec.loc ≤ last
      · rw [run_cons hloc] at hrun
        cases item with
        | error e' => exact ⟨[], _, rest, exec, rfl, rfl, hloc, (run_cons hloc _ _).trans hrun⟩
        | ok instruction =>
            cases hexec : execute factors instruction exec with
            | error e' after' =>
                dsimp only at hrun
                rw [Action.bind_eq_of_error hexec] at hrun
                refine ⟨[], _, rest, exec, rfl, rfl, hloc, ?_⟩
                rw [run_cons hloc]
                exact (Action.bind_eq_of_error hexec _).trans hrun
            | ok _ next =>
                dsimp only at hrun
                rw [Action.bind_eq_of_ok hexec] at hrun
                obtain ⟨before, item, rest', mid, rfl, hbefore, hmid, hitem⟩ := ih hrun
                refine ⟨.ok instruction :: before, item, rest', mid, rfl, ?_, hmid, hitem⟩
                rw [run_cons hloc]
                exact (Action.bind_eq_of_ok hexec _).trans hbefore
      · rw [run_past hloc] at hrun
        cases hrun

theorem run_single_error {item : Except UnwindError Instruction} (hloc : exec.loc ≤ last)
    (hrun : run factors last [item] exec = .error e after) :
    after = exec ∨
      ∃ instruction, item = .ok instruction ∧ factors.HalfSpills exec instruction ∧
        after = factors.halfSpilled exec ∧
        e = .badRegister (UInt64.ofNat exec.row.current.numRegs) := by
  rw [run_cons hloc] at hrun
  cases item with
  | error e' =>
      cases hrun
      exact .inl rfl
  | ok instruction =>
      dsimp only at hrun
      rw [Action.bind_apply] at hrun
      cases hexec : execute factors instruction exec with
      | ok _ next =>
          rw [hexec] at hrun
          cases hrun
      | error e' next =>
          rw [hexec] at hrun
          cases hrun
          rcases execute_error hexec with hsame | hspilled
          · exact .inl hsame
          · exact .inr ⟨instruction, rfl, hspilled⟩

/-- A program that fails leaves what the instructions before the failing one
have made, and of that one nothing: it cannot be read, or finds out what is
wrong before it changes anything.  Only a register window that goes past the
end of the table is spilled as far as the table goes. -/
theorem run_error_leaves (factors : Factors) (last : UInt64)
    (items : List (Except UnwindError Instruction)) (exec after : Execution) (e : UnwindError)
    (hrun : run factors last items exec = .error e after) :
    ∃ before item rest mid, items = before ++ item :: rest ∧
      run factors last before exec = .ok () mid ∧ mid.loc ≤ last ∧
      run factors last [item] mid = .error e after ∧
      (after = mid ∨
        ∃ instruction, item = .ok instruction ∧ factors.HalfSpills mid instruction ∧
          after = factors.halfSpilled mid ∧
          e = .badRegister (UInt64.ofNat mid.row.current.numRegs)) := by
  obtain ⟨before, item, rest, mid, hsplit, hbefore, hmid, hitem⟩ := fails_at_of_run hrun
  exact ⟨before, item, rest, mid, hsplit, hbefore, hmid, hitem, run_single_error hmid hitem⟩

/-- A table of twenty columns on an architecture with register windows. -/
def narrowFactors : Factors where
  arch := { Arch.x86_64 with numRegs := 20, windowSave := some .registerWindows }
  codeAlign := 1
  dataAlign := -8

def narrowStart : Execution where
  loc := 0x4000
  row := Row.default narrowFactors.arch 16
  workspace := .empty

/-- The second of these names a register that the table does not have. -/
def unknownRegister : List (Except UnwindError Instruction) :=
  [.ok (.undefined 3), .ok (.undefined 20), .ok .nop]

def narrowEnd : Execution :=
  narrowStart.withCurrent (narrowStart.row.current.withRule 3 .undefined)

theorem run_error_unknownRegister :
    run narrowFactors 0x4010 unknownRegister narrowStart = .error (.badRegister 20) narrowEnd ∧
    ∃ before item rest mid, unknownRegister = before ++ item :: rest ∧
      run narrowFactors 0x4010 before narrowStart = .ok () mid ∧ mid.loc ≤ 0x4010 ∧
      run narrowFactors 0x4010 [item] mid = .error (.badRegister 20) narrowEnd ∧
      (narrowEnd = mid ∨
        ∃ instruction, item = .ok instruction ∧ narrowFactors.HalfSpills mid instruction ∧
          narrowEnd = narrowFactors.halfSpilled mid ∧
          .badRegister 20 = UnwindError.badRegister (UInt64.ofNat mid.row.current.numRegs)) := by
  have hrun : run narrowFactors 0x4010 unknownRegister narrowStart =
      .error (.badRegister 20) narrowEnd := rfl
  exact ⟨hrun, run_error_leaves narrowFactors 0x4010 _ narrowStart _ _ hrun⟩

/-- Four columns of the window have a new rule when the fifth is found out. -/
theorem windowSave_changes_before_it_fails :
    ∃ after,
      run narrowFactors 0x4010 [.ok .windowSave] narrowStart = .error (.badRegister 20) after ∧
      narrowStart.row.current.ruleOf 16 = .sameValue ∧
      after.row.current.ruleOf 16 = .cfaRelative 0 ∧
      after.row.current.ruleOf 19 = .cfaRelative 24 ∧ after ≠ narrowStart := by
  refine ⟨_, rfl, by decide, by decide, by decide, ?_⟩
  intro hsame
  have hrule := congrArg (fun exec : Execution => exec.row.current.ruleOf 16) hsame
  revert hrule
  decide

end StackWalk.Cfi
