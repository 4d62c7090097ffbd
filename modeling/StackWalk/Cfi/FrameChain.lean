import StackWalk.Cfi.Entry

/-!
# Searching a chain of entries

A section without a table is searched from its first entry on.  The chain
ends with the section, or where an entry has no valid header.
-/

namespace StackWalk.Cfi

/-- The first FDE of the chain between `address` and `stop` that holds `ip`. -/
def searchSection (target : Target) (frameSection : FrameSection) (bases : PointerBases)
    (stop ip : UInt64) (address : UInt64) : Except UnwindError Fde :=
  if address < stop then
    match _hheader : entryHeader target address with
    | .ok header =>
        if header.isCie frameSection then
          searchSection target frameSection bases stop ip header.stop
        else
          match parseFde target address frameSection bases with
          | .ok fde =>
              if fde.contains ip then
                .ok fde
              else
                searchSection target frameSection bases stop ip header.stop
          | .error e => .error e
    | .error (.invalidArgument _) => .error (.noInfo ip)
    | .error e => .error e
  else
    .error (.noInfo ip)
termination_by UInt64.size - address.toNat
decreasing_by
  all_goals
    have := entryHeader_advances _hheader
    have := header.stop.toNat_lt_size
    omega

end StackWalk.Cfi
