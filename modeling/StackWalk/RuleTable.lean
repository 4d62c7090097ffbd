import StackWalk.Arch

/-!
# Rules for the registers of the caller

One row of call frame information says how to compute the canonical frame
address (CFA) and, for each column, how to recover the caller's value.  A
column without a rule of its own keeps its value.
-/

namespace StackWalk

/-- How to recover the caller's value of one column. -/
inductive RegisterRule where
  /-- The value is not preserved. -/
  | undefined
  /-- The value was not changed. -/
  | sameValue
  /-- The value is saved at the CFA plus an offset. -/
  | cfaRelative (offset : Int64)
  /-- The value is the CFA plus an offset. -/
  | valCfaRelative (offset : Int64)
  /-- The value is in another column. -/
  | inRegister (source : Column)
  /-- The value is saved where an expression says; the address is that of the
  expression's length. -/
  | expression (addr : UInt64)
  /-- The value is what an expression computes. -/
  | valExpression (addr : UInt64)
  deriving DecidableEq, Repr, Inhabited

/-- How to compute the CFA. -/
inductive CfaRule where
  | registerOffset (register : Column) (offset : Int64)
  | expression (addr : UInt64)
  deriving DecidableEq, Repr, Inhabited

/-- A rule for the CFA and one for each column. -/
structure RuleTable where
  cfa : CfaRule
  rules : Vector RegisterRule maxColumns
  numRegs : Column
  deriving DecidableEq, Repr

namespace RuleTable

/-- Nothing was changed, and the CFA is the stack pointer. -/
def default (arch : Arch) : RuleTable where
  cfa := .registerOffset arch.sp 0
  rules := Vector.replicate maxColumns .sameValue
  numRegs := arch.numRegs

def ruleOf (table : RuleTable) (reg : Column) : RegisterRule :=
  table.rules[reg]?.getD .sameValue

def withRule (table : RuleTable) (reg : Column) (rule : RegisterRule) : RuleTable :=
  { table with rules := table.rules.setIfInBounds reg rule }

def get (table : RuleTable) (reg : UInt64) : Except UnwindError RegisterRule :=
  if reg.toNat < table.numRegs then
    .ok (table.ruleOf reg.toNat)
  else
    .error (.badRegister reg)

/-- The table with another rule for the column that a register number names. -/
def set (table : RuleTable) (reg : UInt64) (rule : RegisterRule) :
    Except UnwindError RuleTable :=
  if reg.toNat < table.numRegs then
    .ok (table.withRule reg.toNat rule)
  else
    .error (.badRegister reg)

/-- The columns with a rule of their own, in order. -/
def explicit (table : RuleTable) : List (Column × RegisterRule) :=
  (List.range table.numRegs).filterMap fun reg =>
    match table.ruleOf reg with
    | .sameValue => none
    | rule => some (reg, rule)

@[simp] theorem ruleOf_default (arch : Arch) (reg : Column) :
    (default arch).ruleOf reg = .sameValue := by
  simp only [ruleOf, default, Vector.getElem?_replicate]
  split <;> rfl

@[simp] theorem ruleOf_withRule_self {table : RuleTable} {reg : Column} {rule : RegisterRule}
    (h : reg < maxColumns) : (table.withRule reg rule).ruleOf reg = rule := by
  simp [ruleOf, withRule, h]

@[simp] theorem ruleOf_withRule_ne {table : RuleTable} {reg other : Column}
    {rule : RegisterRule} (h : reg ≠ other) :
    (table.withRule reg rule).ruleOf other = table.ruleOf other := by
  simp [ruleOf, withRule, h]

end RuleTable

/-! ## The text of a table -/

/-- The text of a rule, with numbers in base ten. -/
def RegisterRule.describe : RegisterRule → String
  | .undefined => "Undefined"
  | .sameValue => "SameValue"
  | .cfaRelative offset => "CfaRelative(" ++ toString offset.toInt ++ ")"
  | .valCfaRelative offset => "ValCfaRelative(" ++ toString offset.toInt ++ ")"
  | .inRegister source => "InRegister(" ++ toString source ++ ")"
  | .expression addr => "Expression(" ++ toString addr.toNat ++ ")"
  | .valExpression addr => "ValExpression(" ++ toString addr.toNat ++ ")"

/-- The text of a rule for the CFA, with numbers in base ten. -/
def CfaRule.describe : CfaRule → String
  | .registerOffset register offset =>
      "RegisterOffset \x7b register: " ++ toString register ++ ", offset: " ++
        toString offset.toInt ++ " \x7d"
  | .expression addr =>
      "Expression(" ++ toString addr.toNat ++ ")"

/-- The text of a table: the CFA, then the columns with a rule of their own. -/
def RuleTable.describe (table : RuleTable) : String :=
  let cfa := "\"cfa\": " ++ table.cfa.describe
  let rules := table.explicit.map fun (reg, rule) => toString reg ++ ": " ++ rule.describe
  "\x7b" ++ String.intercalate ", " (cfa :: rules) ++ "\x7d"

end StackWalk
