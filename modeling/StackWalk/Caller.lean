import StackWalk.Expression
import StackWalk.RuleTable

/-!
# The caller's frame

A table of rules, applied to the locations of a frame, gives the CFA and the
locations of the caller.  All rules see the frame as it is before any of them:
applying them is a simultaneous substitution.
-/

namespace StackWalk

def resolveCfa (target : Target) (locs : Locations) (rule : CfaRule) :
    Except UnwindError UInt64 := do
  match rule with
  | .registerOffset register offset =>
      let base ← (locs.of register).read target register
      return addOffset base offset &&& target.arch.wordMask
  | .expression addr =>
      match ← Expression.evaluate target locs.of addr none with
      | .address cfa => return cfa
      | .value cfa => return cfa
      | .register reg => (locs.of reg).read target reg

/-- The address or value at an offset from the CFA. -/
def atCfa (target : Target) (cfa : UInt64) (offset : Int64) : UInt64 :=
  addOffset cfa offset &&& target.arch.wordMask

def resolveRule (target : Target) (locs : Locations) (cfa : UInt64) (reg : Column)
    (rule : RegisterRule) : Except UnwindError Location := do
  match rule with
  | .undefined => return .lost
  | .sameValue => return locs.of reg
  | .cfaRelative offset => return .memory (atCfa target cfa offset) false
  | .valCfaRelative offset => return .value (atCfa target cfa offset)
  | .inRegister source => return locs.of source
  | .expression addr =>
      match ← Expression.evaluate target locs.of addr (some cfa) with
      | .address saved => return .memory saved false
      | .register source => return locs.of source
      | .value word => return .value word
  | .valExpression addr =>
      match ← Expression.evaluate target locs.of addr (some cfa) with
      | .address word => return .value word
      | .value word => return .value word
      | .register source =>
          let word ← (locs.of source).read target source
          return .value word

/-- Lays the locations that rules give over those of the caller so far. -/
def resolveRules (target : Target) (locs : Locations) (cfa : UInt64) :
    List (Column × RegisterRule) → Locations → Except UnwindError Locations
  | [], caller =>
      .ok caller
  | (reg, rule) :: rest, caller => do
      let loc ← resolveRule target locs cfa reg rule
      resolveRules target locs cfa rest (caller.put reg (loc.withFp (target.arch.isFp reg)))

/-- The CFA and the locations of the caller.  The stack pointer is the CFA
unless it has a rule; other columns without a rule keep their locations. -/
def applyRules (target : Target) (locs : Locations) (cfaRule : CfaRule)
    (rules : List (Column × RegisterRule)) : Except UnwindError (UInt64 × Locations) := do
  let cfa ← resolveCfa target locs cfaRule
  let caller ← resolveRules target locs cfa rules locs
  if rules.any (·.1 == target.arch.sp) then
    return (cfa, caller)
  else
    return (cfa, caller.put target.arch.sp (.value cfa))

end StackWalk
