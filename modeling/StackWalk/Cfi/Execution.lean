import StackWalk.Cfi.Instruction
import StackWalk.Row

/-!
# Running call frame programs

A program is run at a location that its instructions move forward, and only
as long as the location has not passed the target.  Each instruction changes
the row or the workspace; one that fails leaves behind what it had done up to
then.
-/

namespace StackWalk.Cfi

/-- What instructions are run with. -/
structure Factors where
  arch : Arch
  codeAlign : UInt64
  dataAlign : Int64
  deriving DecidableEq, Repr

/-- A program on its way: the location reached, the row there and the tables
put aside. -/
structure Execution where
  loc : UInt64
  row : Row
  workspace : Workspace
  deriving DecidableEq, Repr

def Factors.scale (factors : Factors) (factored : UInt64) : Int64 :=
  factored.toInt64 * factors.dataAlign

def Factors.scaleSigned (factors : Factors) (factored : Int64) : Int64 :=
  factored * factors.dataAlign

def modifyCurrent (change : RuleTable → Except UnwindError RuleTable) : Action Execution Unit := do
  let exec ← get
  let table ← change exec.row.current
  set { exec with row := { exec.row with current := table } }

def setRule (reg : UInt64) (rule : RegisterRule) : Action Execution Unit :=
  modifyCurrent fun table => table.set reg rule

def setCfa (rule : CfaRule) : Action Execution Unit :=
  modifyCurrent fun table => .ok { table with cfa := rule }

def setCfaRegister (register : Column) (table : RuleTable) : Except UnwindError RuleTable :=
  match table.cfa with
  | .registerOffset _ offset => .ok { table with cfa := .registerOffset register offset }
  | .expression _ => .error (.invalidArgument .cfaRegisterOnExpression)

def setCfaOffset (offset : Int64) (table : RuleTable) : Except UnwindError RuleTable :=
  match table.cfa with
  | .registerOffset register _ => .ok { table with cfa := .registerOffset register offset }
  | .expression _ => .error (.invalidArgument .cfaOffsetOnExpression)

/-- The register numbers of a window, in order. -/
def windowRegisters : List Nat :=
  (List.range 16).map (16 + ·)

/-- Spills columns 16 to 31 to the save area at the CFA, one after the other. -/
def saveWindow (wordSize : UInt64) : List Nat → Action Execution Unit
  | [] =>
      pure ()
  | reg :: rest => do
      setRule (UInt64.ofNat reg) (.cfaRelative (UInt64.ofNat (reg - 16) * wordSize).toInt64)
      saveWindow wordSize rest

/-- The effect of one instruction. -/
def execute (factors : Factors) : Instruction → Action Execution Unit
  | .setLoc addr =>
      modify fun exec => { exec with loc := addr }
  | .advanceLoc _ delta =>
      modify fun exec => { exec with loc := exec.loc + delta * factors.codeAlign }
  | .defCfa reg offset => do
      let register ← factors.arch.checkReg reg
      setCfa (.registerOffset register offset.toInt64)
  | .defCfaFactored reg factored => do
      let register ← factors.arch.checkReg reg
      setCfa (.registerOffset register (factors.scaleSigned factored))
  | .defCfaRegister reg => do
      let register ← factors.arch.checkReg reg
      modifyCurrent (setCfaRegister register)
  | .defCfaOffset offset =>
      modifyCurrent (setCfaOffset offset.toInt64)
  | .defCfaOffsetFactored factored =>
      modifyCurrent (setCfaOffset (factors.scaleSigned factored))
  | .defCfaExpression addr =>
      setCfa (.expression addr)
  | .undefined reg =>
      setRule reg .undefined
  | .sameValue reg =>
      setRule reg .sameValue
  | .offset _ reg factored =>
      setRule reg (.cfaRelative (factors.scale factored))
  | .offsetSigned reg factored =>
      setRule reg (.cfaRelative (factors.scaleSigned factored))
  | .valOffset reg factored =>
      setRule reg (.valCfaRelative (factors.scale factored))
  | .valOffsetSigned reg factored =>
      setRule reg (.valCfaRelative (factors.scaleSigned factored))
  | .register reg source => do
      let column ← factors.arch.checkReg source
      setRule reg (.inRegister column)
  | .expression reg addr =>
      setRule reg (.expression addr)
  | .valExpression reg addr =>
      setRule reg (.valExpression addr)
  | .restore _ reg => do
      let rule ← (← get).row.initial.get reg
      setRule reg rule
  | .rememberState => do
      let exec ← get
      let workspace ← exec.workspace.push exec.row.current
      set { exec with workspace := workspace }
  | .restoreState => do
      let exec ← get
      let (table, workspace) ← exec.workspace.pop
      set { exec with row := { exec.row with current := table }, workspace := workspace }
  | .windowSave =>
      match factors.arch.windowSave with
      | some .registerWindows =>
          saveWindow factors.arch.wordSize windowRegisters
      | some .negateRaState =>
          modify fun exec => { exec with row := { exec.row with raSigned := !exec.row.raSigned } }
      | none =>
          throw (.invalidArgument .noRegisterWindows)
  | .argsSize size =>
      modify fun exec => { exec with row := { exec.row with argsSize := size } }
  | .negativeOffset reg factored =>
      setRule reg (.cfaRelative (-factors.scale factored))
  | .nop =>
      pure ()

/-- Runs decoded instructions while the location is not past `last`. -/
def run (factors : Factors) (last : UInt64) :
    List (Except UnwindError Instruction) → Action Execution Unit
  | [] =>
      pure ()
  | next :: rest => do
      if (← get).loc ≤ last then
        let instruction ← next
        execute factors instruction
        run factors last rest
      else
        pure ()

end StackWalk.Cfi
