import StackWalk.ProcInfo

/-!
# Scripts

A script is a row compiled for reuse: the rules that a step applies and
nothing else.  It holds up to 32 rules; rows with more are not compiled.
-/

namespace StackWalk

def maxScriptRules : Nat := 32

/-- What a step needs of a row. -/
structure Script where
  cfa : CfaRule
  /-- The columns with a rule of their own, in order. -/
  rules : List (Column × RegisterRule)
  returnAddress : Column
  argsSize : UInt64
  signalFrame : Bool
  raSigned : Bool
  deriving DecidableEq, Repr

/-- What a step needs of a row, however many rules it has. -/
def Row.toScript (row : Row) : Script where
  cfa := row.current.cfa
  rules := row.current.explicit
  returnAddress := row.returnAddress
  argsSize := row.argsSize
  signalFrame := row.signalFrame
  raSigned := row.raSigned

/-- The script of a row, if it fits. -/
def Script.compile (row : Row) : Option Script :=
  if row.current.explicit.length ≤ maxScriptRules then
    some row.toScript
  else
    none

theorem Script.eq_toScript_of_compile {row : Row} {script : Script}
    (h : Script.compile row = some script) : script = row.toScript := by
  unfold Script.compile at h
  split at h
  · exact (Option.some.inj h).symm
  · cases h

end StackWalk
