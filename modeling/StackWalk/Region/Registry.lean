import StackWalk.Region

/-!
# The registered regions

Regions are kept in order of their addresses and never overlap, so at most one
of them holds an address.
-/

namespace StackWalk

/-- The registered regions, in order of their addresses. -/
structure Registry where
  regions : List Region
  deriving DecidableEq, Repr

namespace Registry

def empty : Registry := ⟨[]⟩

/-- Adds a region that overlaps none of the others, and answers it. -/
def register (registry : Registry) (region : Region) : Except UnwindError (Region × Registry) :=
  let below := registry.regions.takeWhile (·.start < region.start)
  let above := registry.regions.dropWhile (·.start < region.start)
  let overlapsBelow := below.getLast?.any (region.start < ·.stop)
  let overlapsAbove := above.head?.any (·.start < region.stop)
  if overlapsBelow || overlapsAbove then
    .error (.invalidArgument .regionOverlaps)
  else
    .ok (region, ⟨below ++ region :: above⟩)

def unregister (registry : Registry) (start : UInt64) : Option (Region × Registry) :=
  match registry.regions.find? (·.start == start) with
  | some region => some (region, ⟨registry.regions.eraseP (·.start == start)⟩)
  | none => none

def find? (registry : Registry) (ip : UInt64) : Option Region :=
  (registry.regions.takeWhile (·.start ≤ ip)).getLast?.filter (·.contains ip)

def size (registry : Registry) : Nat :=
  registry.regions.length

def isEmpty (registry : Registry) : Bool :=
  registry.regions.isEmpty

end Registry
end StackWalk
