import StackWalk.Row

/-!
# Regions of generated code

Code made at run time has no call frame information.  Whoever makes it
describes each region by operations that take effect at offsets into it; an
operation may hold only under a predicate register.  The row of an address is
what the operations up to it leave behind.
-/

namespace StackWalk

/-- The predicate registers whose values are known. -/
structure Predicates where
  /-- Which predicates are known. -/
  mask : UInt64 := 0
  /-- The values of the known ones. -/
  value : UInt64 := 0
  deriving DecidableEq, Repr, Inhabited

/-- Whether an operation under this predicate takes effect: it has none, the
predicate is not known, or it is known to be true.  Predicates from 64 up are
never true. -/
def Predicates.holds (predicates : Predicates) : Option Nat → Bool
  | none =>
      true
  | some bit =>
      bit < 64 && (!predicates.mask.toNat.testBit bit || predicates.value.toNat.testBit bit)

/-- What an operation of a region does. -/
inductive RegionEffect where
  /-- The CFA is a register plus an offset. -/
  | defCfa (register : Column) (offset : Int64)
  /-- A register was copied into another. -/
  | saveReg (register target : Column)
  /-- A register was stored at the CFA plus an offset. -/
  | spill (register : Column) (offset : Int64)
  /-- A register is again as it was at the start of the region. -/
  | restore (register : Column)
  /-- The table in effect is put aside. -/
  | labelState (label : UInt64)
  /-- A table put aside is in effect again. -/
  | copyState (label : UInt64)
  /-- There is no caller. -/
  | stop
  deriving DecidableEq, Repr

/-- An operation and where it takes effect. -/
structure RegionOp where
  /-- Bytes from the start of the region. -/
  offset : UInt64
  predicate : Option Nat
  effect : RegionEffect
  deriving DecidableEq, Repr

/-- A region of generated code. -/
structure Region where
  name : Option String
  start : UInt64
  stop : UInt64
  returnAddress : Column
  ops : List RegionOp
  deriving DecidableEq, Repr

namespace Region

/-- Describes a region.  Operations may come in any order; those of one offset
keep theirs. -/
def make (name : Option String) (start stop : UInt64) (returnAddress : Column)
    (ops : List RegionOp) : Except UnwindError Region :=
  if start < stop then
    .ok {
      name := name
      start := start
      stop := stop
      returnAddress := returnAddress
      ops := ops.mergeSort fun a b => a.offset ≤ b.offset }
  else
    .error (.invalidArgument .regionEmptyRange)

def contains (region : Region) (ip : UInt64) : Bool :=
  region.start ≤ ip && ip < region.stop

/-- The effect of one operation on a row, with the tables put aside so far. -/
def execute (arch : Arch) (row : Row) (ws : Workspace) :
    RegionEffect → Except UnwindError (Row × Workspace)
  | .defCfa register offset => do
      let register ← arch.checkColumn register
      return ({ row with current := { row.current with cfa := .registerOffset register offset } }, ws)
  | .saveReg register target => do
      let target ← arch.checkColumn target
      let table ← row.current.set (UInt64.ofNat register) (.inRegister target)
      return ({ row with current := table }, ws)
  | .spill register offset => do
      let table ← row.current.set (UInt64.ofNat register) (.cfaRelative offset)
      return ({ row with current := table }, ws)
  | .restore register => do
      let rule ← row.initial.get (UInt64.ofNat register)
      let table ← row.current.set (UInt64.ofNat register) rule
      return ({ row with current := table }, ws)
  | .labelState label => do
      let ws ← ws.label label row.current
      return (row, ws)
  | .copyState label => do
      let table ← ws.labeled label
      return ({ row with current := table }, ws)
  | .stop =>
      .error .stopUnwind

/-- Runs operations one after the other, leaving out those that do not hold. -/
def run (arch : Arch) (predicates : Predicates) :
    List RegionOp → Row → Workspace → Except UnwindError Row × Workspace
  | [], row, ws =>
      (.ok row, ws)
  | op :: rest, row, ws =>
      if predicates.holds op.predicate then
        match execute arch row ws op.effect with
        | .ok (row, ws) => run arch predicates rest row ws
        | .error e => (.error e, ws)
      else
        run arch predicates rest row ws

/-- The row of an address of the region, and the workspace used for it.
Nothing that was in the workspace before is seen. -/
def rowAt (arch : Arch) (ws : Workspace) (region : Region) (ip : UInt64)
    (predicates : Predicates) : Except UnwindError Row × Workspace :=
  if region.contains ip then
    match arch.checkColumn region.returnAddress with
    | .error e =>
        (.error e, ws)
    | .ok returnAddress =>
        let ops := region.ops.takeWhile fun op => op.offset ≤ ip - region.start
        run arch predicates ops (Row.default arch returnAddress) ws.reset
  else
    (.error (.noInfo ip), ws)

end Region
end StackWalk
