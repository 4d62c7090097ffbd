import StackWalk.RuleTable

/-!
# Rows and the scratch space to compute them

A `Row` is what is known about one address: the table in effect there, the
table that single columns are restored to, and a few facts beside the rules.
A `Workspace` holds the tables that a program has put aside, at most four of
each kind.
-/

namespace StackWalk

/-- The call frame information of one address. -/
structure Row where
  /-- The table that the first instructions of the entry leave behind. -/
  initial : RuleTable
  /-- The table in effect. -/
  current : RuleTable
  /-- Bytes of arguments that the code has pushed. -/
  argsSize : UInt64
  /-- The column of the return address. -/
  returnAddress : Column
  /-- The code is a signal trampoline. -/
  signalFrame : Bool
  /-- The saved return address is signed. -/
  raSigned : Bool
  deriving DecidableEq, Repr

def Row.default (arch : Arch) (returnAddress : Column) : Row where
  initial := RuleTable.default arch
  current := RuleTable.default arch
  argsSize := 0
  returnAddress := returnAddress
  signalFrame := false
  raSigned := false

/-- Tables put aside by a running program. -/
structure Workspace where
  /-- Remembered tables, the latest first. -/
  snapshots : List RuleTable
  /-- Tables put aside under a label. -/
  labels : List (UInt64 × RuleTable)
  deriving DecidableEq, Repr

namespace Workspace

/-- How many tables are remembered at most. -/
def maxSnapshots : Nat := 4

/-- How many labels are kept at most. -/
def maxLabels : Nat := 4

def empty : Workspace where
  snapshots := []
  labels := []

/-- Drops what an earlier program has put aside. -/
def reset (ws : Workspace) : Workspace :=
  { ws with snapshots := [], labels := [] }

def push (ws : Workspace) (table : RuleTable) : Except UnwindError Workspace :=
  if ws.snapshots.length < maxSnapshots then
    .ok { ws with snapshots := table :: ws.snapshots }
  else
    .error (.outOfMemory .ruleSnapshots)

def pop (ws : Workspace) : Except UnwindError (RuleTable × Workspace) :=
  match ws.snapshots with
  | [] => .error (.invalidArgument .restoreWithoutRemember)
  | table :: rest => .ok (table, { ws with snapshots := rest })

/-- Puts a table aside under a label, in place of an earlier one. -/
def label (ws : Workspace) (name : UInt64) (table : RuleTable) : Except UnwindError Workspace :=
  if ws.labels.any (·.1 == name) then
    .ok { ws with
      labels := ws.labels.map fun entry => if entry.1 == name then (name, table) else entry }
  else if ws.labels.length < maxLabels then
    .ok { ws with labels := ws.labels ++ [(name, table)] }
  else
    .error (.outOfMemory .labeledStates)

def labeled (ws : Workspace) (name : UInt64) : Except UnwindError RuleTable :=
  match ws.labels.find? (·.1 == name) with
  | some (_, table) => .ok table
  | none => .error (.invalidArgument .unknownLabel)

theorem pop_push {ws after : Workspace} {table : RuleTable} (h : ws.push table = .ok after) :
    after.pop = .ok (table, ws) := by
  unfold push at h
  split at h
  · cases h
    rfl
  · cases h

end Workspace
end StackWalk
