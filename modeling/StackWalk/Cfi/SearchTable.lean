import StackWalk.Cfi.FrameChain

/-!
# The search table

An exception frame section may come with a header that points to it and holds
a table of pairs: the first address of a procedure and the address of its FDE,
in order of the first.  The table is searched by halving.  A header without a
table leaves the chain of entries itself to be searched.
-/

namespace StackWalk.Cfi

/-- The fixed part of a header. -/
structure TableHeader where
  version : UInt8
  framePointerEncoding : PointerEncoding
  countEncoding : PointerEncoding
  tableEncoding : PointerEncoding
  deriving DecidableEq, Repr

def readTableHeader (target : Target) : Scan TableHeader := do
  let version ← target.readU8
  let framePointer ← target.readU8
  let count ← target.readU8
  let table ← target.readU8
  return {
    version := version
    framePointerEncoding := ⟨framePointer⟩
    countEncoding := ⟨count⟩
    tableEncoding := ⟨table⟩ }

/-- A table of pairs in memory. -/
structure SearchTable where
  encoding : PointerEncoding
  bases : PointerBases
  /-- The address of the first pair. -/
  start : UInt64
  /-- The size of one half of a pair. -/
  halfSize : UInt64
  /-- The number of pairs. -/
  count : UInt64
  deriving DecidableEq, Repr

namespace SearchTable

def entryAddress (table : SearchTable) (index : UInt64) : UInt64 :=
  table.start + index * (table.halfSize * 2)

/-- The pointer at an address, in the encoding of the table. -/
def pointerAt (target : Target) (table : SearchTable) (addr : UInt64) :
    Except UnwindError UInt64 :=
  (target.readPointer table.encoding table.bases).answer addr

/-- The first address of the procedure of a pair. -/
def initialLocation (target : Target) (table : SearchTable) (index : UInt64) :
    Except UnwindError UInt64 :=
  table.pointerAt target (table.entryAddress index)

def fdeAddress (target : Target) (table : SearchTable) (index : UInt64) :
    Except UnwindError UInt64 :=
  table.pointerAt target (table.entryAddress index + table.halfSize)

/-- Halves the `length` pairs from `base` on.  The answer is the number of
pairs up to the last whose procedure begins at or before `ip`. -/
def search (target : Target) (table : SearchTable) (ip : UInt64) (base length : Nat) :
    Except UnwindError Nat :=
  if length = 0 then
    .ok base
  else
    let half := length / 2
    match table.initialLocation target (UInt64.ofNat (base + half)) with
    | .error e => .error e
    | .ok first =>
        if first ≤ ip then
          search target table ip (base + half + 1) (length - (half + 1))
        else
          search target table ip base half
termination_by length
decreasing_by
  all_goals omega

end SearchTable

/-- The table after a header whose fixed part and pointer were read. -/
def readSearchTable (target : Target) (header : TableHeader) (bases : PointerBases) :
    Scan SearchTable := do
  let count ← target.readPointer header.countEncoding bases
  match ← header.tableEncoding.size target.arch.addressSize with
  | none =>
      throw (.invalidArgument .tableNotFixedSize)
  | some half =>
      let start ← get
      let halfSize := UInt64.ofNat half
      match (checkedMul count (halfSize * 2)).bind (checkedAdd start) with
      | none =>
          throw (.invalidArgument .tableTooLong)
      | some _ =>
          return { encoding := header.tableEncoding, bases, start, halfSize, count }

def SearchTable.findFde (target : Target) (table : SearchTable) (ip : UInt64) :
    Except UnwindError Fde := do
  let above ← table.search target ip 0 table.count.toNat
  if above = 0 then
    throw (.noInfo ip)
  else
    let address ← table.fdeAddress target (UInt64.ofNat (above - 1))
    let fde ← parseFde target address .ehFrame table.bases
    if fde.contains ip then
      return fde
    else
      throw (.noInfo ip)

/-- The procedure that holds `ip`, through the header at an address. -/
def findProcInHeader (target : Target) (address ip : UInt64) : Except UnwindError ProcInfo :=
  let bases : PointerBases := { data := address }
  let scan : Scan ProcInfo := do
    let header ← readTableHeader target
    if header.version ≠ 1 then
      throw (.badVersion header.version)
    else
      let chain ← target.readPointer header.framePointerEncoding bases
      if header.countEncoding.isOmitted || header.tableEncoding.isOmitted then
        let fde ← searchSection target .ehFrame bases maxWord ip chain
        return fde.procInfo .ehFrame bases
      else
        let table ← readSearchTable target header bases
        let fde ← table.findFde target ip
        return fde.procInfo .ehFrame bases
  scan.answer address

end StackWalk.Cfi
