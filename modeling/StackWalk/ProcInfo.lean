import StackWalk.Pointer
import StackWalk.Region

/-!
# Procedures

What is known about the procedure that holds an address: its range, what its
language needs, and where its unwind information is.
-/

namespace StackWalk

/-- The section that an entry of call frame information is from.  It decides
how an entry names the one it shares. -/
inductive FrameSection where
  /-- The distance back from the field itself. -/
  | ehFrame
  /-- The offset from the start of the section. -/
  | debugFrame (base : UInt64)
  deriving DecidableEq, Repr

/-- Where the unwind information of a procedure is. -/
inductive UnwindInfo where
  | absent
  /-- An entry of call frame information. -/
  | dwarf (fde : UInt64) (frameSection : FrameSection)
  /-- A region of generated code. -/
  | dynamic (region : Region)
  deriving DecidableEq, Repr

/-- A procedure. -/
structure ProcInfo where
  start : UInt64
  stop : UInt64
  /-- The data of the procedure's language, or zero. -/
  lsda : UInt64 := 0
  /-- The routine that handles exceptions, or zero. -/
  handler : UInt64 := 0
  /-- What data-relative pointers are relative to. -/
  gp : UInt64 := 0
  /-- What text-relative pointers are relative to, where it is known. -/
  textBase : Option UInt64 := none
  unwindInfo : UnwindInfo := .absent
  deriving DecidableEq, Repr

namespace ProcInfo

def contains (info : ProcInfo) (ip : UInt64) : Bool :=
  info.start ≤ ip && ip < info.stop

/-- The bases of the pointers in the unwind information of the procedure. -/
def pointerBases (info : ProcInfo) : PointerBases where
  data := info.gp
  text := info.textBase
  function := info.start

def ofRegion (region : Region) : ProcInfo where
  start := region.start
  stop := region.stop
  unwindInfo := .dynamic region

end ProcInfo
end StackWalk
