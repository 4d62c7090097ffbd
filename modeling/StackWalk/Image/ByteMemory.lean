import Std.Data.HashMap
import StackWalk.Scan

/-!
# Memory byte by byte

A partial map from addresses to bytes.  A word is read or written as the bytes
from its address on, aligned or not; it is unreadable when one of them is not
mapped or lies past the last address.
-/

namespace StackWalk.Image

/-- The addresses of `count` bytes from `addr` on, none past the last one. -/
def byteAddresses (addr : UInt64) (count : Nat) : Option (List UInt64) :=
  if addr.toNat + count ≤ UInt64.size then
    some ((List.range count).map fun i => addr + UInt64.ofNat i)
  else
    none

/-- The word at `addr` of the memory that `byteAt` describes. -/
def wordOfMemory (arch : Arch) (byteAt : UInt64 → Option UInt8) (addr : UInt64) :
    Except UnwindError UInt64 :=
  match (byteAddresses addr arch.addressSize).bind (·.mapM byteAt) with
  | some bytes => .ok (wordOfBytes arch.endian bytes)
  | none => .error (.unreadable addr)

/-- The bytes that are mapped. -/
structure ByteMemory where
  cells : Std.HashMap UInt64 UInt8

namespace ByteMemory

def empty : ByteMemory := ⟨∅⟩

def byteAt (memory : ByteMemory) (addr : UInt64) : Option UInt8 :=
  memory.cells[addr]?

/-- Maps bytes from `addr` on, over those that are there. -/
def fill (memory : ByteMemory) (addr : UInt64) : List UInt8 → ByteMemory
  | [] =>
      memory
  | byte :: rest =>
      fill ⟨memory.cells.insert addr byte⟩ (addr + 1) rest

def loadWord (memory : ByteMemory) (arch : Arch) (addr : UInt64) : Except UnwindError UInt64 :=
  wordOfMemory arch memory.byteAt addr

def storeWord (memory : ByteMemory) (arch : Arch) (addr value : UInt64) :
    Except UnwindError ByteMemory := do
  let _ ← memory.loadWord arch addr
  return memory.fill addr (bytesOfWord arch.endian arch.addressSize value)

end ByteMemory
end StackWalk.Image
