import StackWalk.Location
import StackWalk.ProcInfo

/-!
# Address spaces

An address space is how the unwinder reaches a program: this process, another
one, or the image of one that ended.  Its state, the world, is kept by whoever
provides it.  Reading is a function of the world and of the thread that reads;
writing and looking up procedures may change the world, also when they fail.
-/

namespace StackWalk

/-- The name of a procedure as far as it fits, and how far an address is from
the procedure's start. -/
structure ProcName where
  bytes : List UInt8
  offset : UInt64
  deriving DecidableEq, Repr

/-- The outcome of a lookup: the answer, the world after it, and how often the
provider said during the lookup that its unwind information had changed. -/
structure Lookup (World : Type) where
  answer : Except UnwindError ProcInfo
  world : World
  changes : Nat

/-- How a program is reached. -/
structure AddressSpace (World Thread : Type) where
  arch : Arch
  loadWord : World → Thread → UInt64 → Except UnwindError UInt64
  storeWord : Thread → UInt64 → UInt64 → Action World Unit
  loadReg : World → Thread → Column → Except UnwindError UInt64
  storeReg : Thread → Column → UInt64 → Action World Unit
  loadFpReg : World → Thread → Column → Except UnwindError FpImage
  storeFpReg : Thread → Column → FpImage → Action World Unit
  /-- The procedure that holds an address. -/
  findProc : World → Thread → UInt64 → Lookup World
  /-- Gives back what a lookup has taken. -/
  releaseProc : World → Thread → ProcInfo → World
  /-- The name of the procedure that holds an address, cut to a length. -/
  procName : World → Thread → UInt64 → Nat → Except UnwindError ProcName
  /-- Whether an address can be read without a fault. -/
  probe : World → Thread → UInt64 → Except UnwindError Unit

namespace AddressSpace

variable {World Thread : Type}

/-- What a thread can read at one moment.  With `validate` every access of
memory is probed first. -/
def target (space : AddressSpace World Thread) (world : World) (thread : Thread)
    (validate : Bool) : Target where
  arch := space.arch
  loadWord addr := do
    if validate then
      space.probe world thread addr
    space.loadWord world thread addr
  loadReg := space.loadReg world thread
  loadFpReg := space.loadFpReg world thread

def borrowProc (space : AddressSpace World Thread) (thread : Thread) (ip : UInt64) :
    Action World ProcInfo := do
  let lookup := space.findProc (← get) thread ip
  set lookup.world
  let info ← lookup.answer
  modify fun world => space.releaseProc world thread info
  return info

/-- Writes a word, cut to the width of the target. -/
def writeWord (space : AddressSpace World Thread) (thread : Thread) (validate : Bool)
    (addr value : UInt64) : Action World Unit := do
  if validate then
    space.probe (← get) thread addr
  space.storeWord thread addr (value &&& space.arch.wordMask)

/-- Writes words to addresses, one after the other, up to the first failure. -/
def writeWords (space : AddressSpace World Thread) (thread : Thread) (validate : Bool) :
    List (UInt64 × UInt64) → Action World Unit
  | [] =>
      pure ()
  | (addr, value) :: rest => do
      space.writeWord thread validate addr value
      space.writeWords thread validate rest

end AddressSpace

namespace Location

variable {World Thread : Type}

/-- Writes the integer value of the column `reg` that has this location. -/
def write (loc : Location) (space : AddressSpace World Thread) (thread : Thread)
    (validate : Bool) (reg : Column) (value : UInt64) : Action World Unit :=
  match loc with
  | lost => throw (.badRegister (UInt64.ofNat reg))
  | register source _ => space.storeReg thread source value
  | memory addr _ => space.writeWord thread validate addr value
  | .value _ => throw (.readOnlyRegister reg)

/-- Writes the floating-point image of the column `reg` that has this
location. -/
def writeFp (loc : Location) (space : AddressSpace World Thread) (thread : Thread)
    (validate : Bool) (reg : Column) (image : FpImage) : Action World Unit :=
  match loc with
  | lost => throw (.badRegister (UInt64.ofNat reg))
  | register source _ => space.storeFpReg thread source image
  | memory addr _ => do
      let addrs ← space.arch.imageAddresses addr
      space.writeWords thread validate (addrs.zip (space.arch.wordsOfImage image))
  | .value _ => throw (.readOnlyRegister reg)

end Location
end StackWalk
