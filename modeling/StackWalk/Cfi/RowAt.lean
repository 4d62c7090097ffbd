import StackWalk.Cfi.Entry
import StackWalk.Cfi.Execution

/-!
# The row of an address

The first row of a procedure is what the program of its CIE leaves behind.
The program of the FDE then moves the location forward, and the row of an
address is the table in effect when the location passes it.
-/

namespace StackWalk.Cfi

def Cie.factors (cie : Cie) (arch : Arch) : Factors where
  arch := arch
  codeAlign := cie.codeAlign
  dataAlign := cie.dataAlign

def Cie.instructions (cie : Cie) (target : Target) (bases : PointerBases) (program : Span) :
    List (Except UnwindError Instruction) :=
  listing target ⟨cie.augmentation.fdeEncoding, bases, program.stop⟩ program.start

/-- Runs a program of an entry from `start` until the location passes `last`. -/
def Cie.runProgram (cie : Cie) (target : Target) (bases : PointerBases) (program : Span)
    (start last : UInt64) : Action Execution Unit := do
  modify fun exec => { exec with loc := start }
  run (cie.factors target.arch) last (cie.instructions target bases program)

/-- The row of an address: the program of the CIE to its end, then that of the
FDE up to the address. -/
def runEntry (target : Target) (fde : Fde) (ip : UInt64) (bases : PointerBases) :
    Action Execution Unit := do
  fde.cie.runProgram target bases fde.cie.program fde.start maxWord
  modify fun exec => { exec with row := { exec.row with initial := exec.row.current } }
  fde.cie.runProgram target bases fde.program fde.start ip

/-- The row of an address and the workspace used for it.  Nothing that was in
the workspace before is seen. -/
def rowAt (target : Target) (ws : Workspace) (fde : Fde) (ip : UInt64) (bases : PointerBases) :
    Except UnwindError Row × Workspace :=
  let row : Row :=
    { Row.default target.arch fde.cie.returnAddress with
      signalFrame := fde.cie.augmentation.signalFrame }
  let before : Execution := ⟨fde.start, row, ws.reset⟩
  let (answer, after) := (runEntry target fde ip bases).perform before
  (answer.map fun _ => after.row, after.workspace)

end StackWalk.Cfi
