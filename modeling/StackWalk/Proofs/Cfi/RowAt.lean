import Mathlib.Data.List.TakeWhile
import Mathlib.Tactic
import StackWalk.Arch.Shipped
import StackWalk.Cfi.RowAt
import StackWalk.Proofs.Cfi.Execution

/-!
# The row of an address is the row of the table

An entry stands for a table.  Its first row is what the program of the CIE
leaves behind, run to the end.  Each instruction of the FDE stands at a
location, and the row of an address is the first row after the effects of the
instructions at or before it.  Running the programs stops at the first
location past the address; when locations never decrease this is the same, so
nothing beyond the address is of any consequence.
-/

namespace StackWalk.Cfi

/-- The items of a program with the locations they stand at. -/
def located (codeAlign loc : UInt64) :
    List (Except UnwindError Instruction) → List (UInt64 × Except UnwindError Instruction)
  | [] =>
      []
  | .error e :: rest =>
      (loc, .error e) :: located codeAlign loc rest
  | .ok instruction :: rest =>
      (loc, .ok instruction) :: located codeAlign (instruction.locAfter codeAlign loc) rest

def rowOutcome : EStateM.Result UnwindError Execution Unit → Except UnwindError (Row × Workspace)
  | .ok _ after => .ok (after.row, after.workspace)
  | .error e _ => .error e

theorem map_snd_located (codeAlign loc : UInt64) (items : List (Except UnwindError Instruction)) :
    (located codeAlign loc items).map Prod.snd = items := by
  induction items generalizing loc with
  | nil => rfl
  | cons item rest ih => cases item <;> simp [located, ih]

/-- A run has the effects of the items before the first that stands past the
last location. -/
theorem rowOutcome_run
    (factors : Factors) (last : UInt64) (items : List (Except UnwindError Instruction))
    (exec : Execution) :
    rowOutcome (run factors last items exec) =
      effects factors
        (((located factors.codeAlign exec.loc items).takeWhile (·.1 ≤ last)).map Prod.snd)
        (exec.row, exec.workspace) := by
  induction items generalizing exec with
  | nil => rfl
  | cons item rest ih =>
      simp only [run, Action.get_bind_apply]
      by_cases hle : exec.loc ≤ last
      · rw [if_pos hle]
        cases item with
        | error e =>
            rw [Action.lift_error_bind_apply]
            simp [located, hle, rowOutcome, effects, effect, bind, Except.bind]
        | ok instruction =>
            simp only [Action.lift_ok_bind_apply, located, hle, decide_true,
              List.takeWhile_cons_of_pos, List.map_cons]
            rcases execute_cases factors instruction exec with
              ⟨row, ws, heffect, hexec⟩ | ⟨e, after, heffect, hexec⟩
            · rw [Action.bind_eq_of_ok hexec, effects_cons_of_ok heffect]
              exact ih _
            · rw [Action.bind_eq_of_error hexec, effects_cons_of_error heffect]
              rfl
      · rw [if_neg hle]
        cases item <;> simp [located, hle, rowOutcome, effects]

theorem rowOutcome_runProgram
    (cie : Cie) (target : Target) (bases : PointerBases) (program : Span)
    (start last : UInt64) (exec : Execution) :
    rowOutcome (cie.runProgram target bases program start last exec) =
      effects (cie.factors target.arch)
        (((located cie.codeAlign start (cie.instructions target bases program)).takeWhile
          (·.1 ≤ last)).map Prod.snd)
        (exec.row, exec.workspace) := by
  unfold Cie.runProgram
  rw [Action.modify_bind_apply, rowOutcome_run]
  rfl

theorem takeWhile_le_maxWord (items : List (UInt64 × Except UnwindError Instruction)) :
    items.takeWhile (·.1 ≤ maxWord) = items := by
  apply List.takeWhile_eq_self_iff.mpr
  intro item _
  have hlt := item.1.toNat_lt
  have hmax : maxWord.toNat = 2 ^ 64 - 1 := rfl
  rw [decide_eq_true_eq, UInt64.le_iff_toNat_le]
  omega

theorem takeWhile_eq_filter_of_pairwise
    {items : List (UInt64 × Except UnwindError Instruction)}
    (hle : items.Pairwise (·.1 ≤ ·.1)) (last : UInt64) :
    items.takeWhile (·.1 ≤ last) = items.filter (·.1 ≤ last) := by
  induction items with
  | nil => rfl
  | cons item rest ih =>
      rw [List.pairwise_cons] at hle
      by_cases hitem : item.1 ≤ last
      · simp [hitem, ih hle.2]
      · have hnone : ∀ other ∈ rest, ¬other.1 ≤ last := by
          intro other hmem hother
          exact hitem (UInt64.le_trans (hle.1 other hmem) hother)
        simpa [hitem] using hnone

/-! ## The table of an entry -/

namespace Fde

/-- The instructions of the FDE with the locations they stand at. -/
def items (fde : Fde) (target : Target) (bases : PointerBases) :
    List (UInt64 × Except UnwindError Instruction) :=
  located fde.cie.codeAlign fde.start (fde.cie.instructions target bases fde.program)

/-- The instructions that stand at or before an address. -/
def itemsUpTo (fde : Fde) (target : Target) (bases : PointerBases) (ip : UInt64) :
    List (Except UnwindError Instruction) :=
  ((fde.items target bases).filter (·.1 ≤ ip)).map Prod.snd

/-- The row of code that has changed nothing. -/
def blankRow (fde : Fde) (target : Target) : Row :=
  { Row.default target.arch fde.cie.returnAddress with
    signalFrame := fde.cie.augmentation.signalFrame }

/-- What the program of the CIE makes of the blank row, run to its end. -/
def firstRow (fde : Fde) (target : Target) (bases : PointerBases) :
    Except UnwindError (Row × Workspace) :=
  effects (fde.cie.factors target.arch) (fde.cie.instructions target bases fde.cie.program)
    (fde.blankRow target, .empty)

def asInitial (state : Row × Workspace) : Row × Workspace :=
  ({ state.1 with initial := state.1.current }, state.2)

def tableOutcome (fde : Fde) (target : Target) (bases : PointerBases) (ip : UInt64) :
    Except UnwindError (Row × Workspace) := do
  let first ← fde.firstRow target bases
  effects (fde.cie.factors target.arch) (fde.itemsUpTo target bases ip) (asInitial first)

/-- The row that the table has for an address. -/
def tableRow (fde : Fde) (target : Target) (bases : PointerBases) (ip : UInt64) :
    Except UnwindError Row :=
  (fde.tableOutcome target bases ip).map Prod.fst

/-- The locations of the instructions never decrease. -/
def Ascending (fde : Fde) (target : Target) (bases : PointerBases) : Prop :=
  (fde.items target bases).Pairwise (·.1 ≤ ·.1)

end Fde

theorem rowOutcome_firstProgram (fde : Fde) (target : Target) (bases : PointerBases) :
    rowOutcome (fde.cie.runProgram target bases fde.cie.program fde.start maxWord
        ⟨fde.start, fde.blankRow target, .empty⟩) =
      fde.firstRow target bases := by
  rw [rowOutcome_runProgram, takeWhile_le_maxWord, map_snd_located]
  rfl

theorem rowOutcome_lastProgram
    {fde : Fde} {target : Target} {bases : PointerBases}
    (hascending : fde.Ascending target bases) (ip : UInt64) (exec : Execution) :
    rowOutcome (fde.cie.runProgram target bases fde.program fde.start ip exec) =
      effects (fde.cie.factors target.arch) (fde.itemsUpTo target bases ip)
        (exec.row, exec.workspace) := by
  have hkept := takeWhile_eq_filter_of_pairwise hascending ip
  unfold Fde.items at hkept
  rw [rowOutcome_runProgram, hkept]
  rfl

theorem rowOutcome_runEntry
    {fde : Fde} {target : Target} {bases : PointerBases}
    (hascending : fde.Ascending target bases) (ip : UInt64) :
    rowOutcome (runEntry target fde ip bases ⟨fde.start, fde.blankRow target, .empty⟩) =
      fde.tableOutcome target bases ip := by
  have hfirst := rowOutcome_firstProgram fde target bases
  unfold runEntry Fde.tableOutcome
  rw [← hfirst, Action.bind_apply]
  cases fde.cie.runProgram target bases fde.cie.program fde.start maxWord
      ⟨fde.start, fde.blankRow target, .empty⟩ with
  | error e after => rfl
  | ok _ mid =>
      exact rowOutcome_lastProgram hascending ip
        { mid with row := { mid.row with initial := mid.row.current } }

theorem rowAt_answer
    {fde : Fde} {target : Target} {bases : PointerBases}
    (hascending : fde.Ascending target bases) (ws : Workspace) (ip : UInt64) :
    (rowAt target ws fde ip bases).1 = fde.tableRow target bases ip := by
  have hrun := rowOutcome_runEntry hascending ip
  unfold Fde.tableRow
  rw [← hrun]
  change (Action.perform _ _).1.map _ = _
  unfold Action.perform Fde.blankRow Workspace.reset Workspace.empty
  cases runEntry target fde ip bases _ <;> rfl

theorem itemsUpTo_eq_of_no_boundary
    {fde : Fde} {target : Target} {bases : PointerBases} {ip later : UInt64}
    (hle : ip ≤ later)
    (hboundary : ∀ item ∈ fde.items target bases, ip < item.1 → later < item.1) :
    fde.itemsUpTo target bases ip = fde.itemsUpTo target bases later := by
  unfold Fde.itemsUpTo
  congr 1
  apply List.filter_congr
  intro item hmem
  rw [decide_eq_decide]
  constructor
  · intro hitem
    exact UInt64.le_trans hitem hle
  · intro hitem
    by_contra hlt
    exact absurd (hboundary item hmem (UInt64.not_le.mp hlt)) (UInt64.not_lt.mpr hitem)

theorem tableRow_eq_error_iff
    {fde : Fde} {target : Target} {bases : PointerBases} {ip : UInt64} {e : UnwindError} :
    fde.tableRow target bases ip = .error e ↔
      FailsWith (fde.cie.factors target.arch)
          (fde.cie.instructions target bases fde.cie.program)
          (fde.blankRow target, .empty) e ∨
        ∃ first, fde.firstRow target bases = .ok first ∧
          FailsWith (fde.cie.factors target.arch) (fde.itemsUpTo target bases ip)
            (Fde.asInitial first) e := by
  simp only [← effects_eq_error_iff]
  change _ ↔ fde.firstRow target bases = .error e ∨ _
  unfold Fde.tableRow Fde.tableOutcome
  cases hfirst : fde.firstRow target bases with
  | error e' => simp [bind, Except.bind, Except.map]
  | ok first =>
      cases hlast : effects (fde.cie.factors target.arch) (fde.itemsUpTo target bases ip)
          (Fde.asInitial first) <;>
        simp [bind, Except.bind, Except.map, hlast]

/-- The row of an address is that of the table: the program of the CIE to its
end, then the instructions at or before the address.  It fails with the first
of these that fails; it is the same for all addresses up to the next location,
whatever else the memory holds and whatever was in the workspace. -/
theorem rowAt_eq_tableRow
    (target : Target) (fde : Fde) (bases : PointerBases)
    (hascending : fde.Ascending target bases) :
    (∀ ws ip, (rowAt target ws fde ip bases).1 = fde.tableRow target bases ip) ∧
    (∀ ws ip e, (rowAt target ws fde ip bases).1 = .error e ↔
      FailsWith (fde.cie.factors target.arch)
          (fde.cie.instructions target bases fde.cie.program)
          (fde.blankRow target, .empty) e ∨
        ∃ first, fde.firstRow target bases = .ok first ∧
          FailsWith (fde.cie.factors target.arch) (fde.itemsUpTo target bases ip)
            (Fde.asInitial first) e) ∧
    (∀ ws ws' ip later, ip ≤ later →
      (∀ item ∈ fde.items target bases, ip < item.1 → later < item.1) →
        (rowAt target ws fde ip bases).1 = (rowAt target ws' fde later bases).1) ∧
    (∀ (other : Target) ws ws' ip, other.arch = target.arch → fde.Ascending other bases →
      fde.cie.instructions other bases fde.cie.program =
        fde.cie.instructions target bases fde.cie.program →
      fde.itemsUpTo other bases ip = fde.itemsUpTo target bases ip →
        (rowAt other ws fde ip bases).1 = (rowAt target ws' fde ip bases).1) ∧
    (∀ ws ws' ip, rowAt target ws fde ip bases = rowAt target ws' fde ip bases) := by
  refine ⟨rowAt_answer hascending, ?_, ?_, ?_, ?_⟩
  · intro ws ip e
    rw [rowAt_answer hascending, tableRow_eq_error_iff]
  · intro ws ws' ip later hle hboundary
    rw [rowAt_answer hascending, rowAt_answer hascending]
    unfold Fde.tableRow Fde.tableOutcome
    rw [itemsUpTo_eq_of_no_boundary hle hboundary]
  · intro other ws ws' ip harch hother hfirst hitems
    rw [rowAt_answer hother, rowAt_answer hascending]
    unfold Fde.tableRow Fde.tableOutcome Fde.firstRow Fde.blankRow
    rw [harch, hfirst, hitems]
  · intro ws ws' ip
    rfl

/-- The bytes of two advances with a change of signing between them, and of an
opcode that no instruction has. -/
def signingTarget : Target where
  arch := .aarch64
  loadWord _ := .ok 0x3f442d44
  loadReg _ := .ok 0
  loadFpReg _ := .ok 0

def signingFde : Fde where
  address := 0x100
  cie := {
    address := 0x80
    version := 1
    augmentation := .none
    codeAlign := 1
    dataAlign := -8
    returnAddress := 30
    program := ⟨0x90, 0x90⟩ }
  start := 0x4000
  stop := 0x4010
  lsda := 0
  program := ⟨0x1000, 0x1004⟩

theorem items_signingFde :
    signingFde.items signingTarget {} =
      [(0x4000, .ok (.advanceLoc .packed 4)), (0x4004, .ok .windowSave),
        (0x4004, .ok (.advanceLoc .packed 4)),
        (0x4008, .error (.invalidArgument .reservedCfaOpcode))] := by
  cbv

theorem rowAt_signingFde :
    signingFde.Ascending signingTarget {} ∧
      (rowAt signingTarget .empty signingFde 0x4004 {}).1 =
        signingFde.tableRow signingTarget {} 0x4004 ∧
      (rowAt signingTarget .empty signingFde 0x4004 {}).1 =
        (rowAt signingTarget .empty signingFde 0x4007 {}).1 := by
  have hascending : signingFde.Ascending signingTarget {} := by
    unfold Fde.Ascending
    rw [items_signingFde]
    simp
  obtain ⟨hrow, -, hsame, -⟩ :=
    rowAt_eq_tableRow signingTarget signingFde {} hascending
  refine ⟨hascending, hrow .empty 0x4004, hsame .empty .empty 0x4004 0x4007 (by decide) ?_⟩
  rw [items_signingFde]
  simp

end StackWalk.Cfi
