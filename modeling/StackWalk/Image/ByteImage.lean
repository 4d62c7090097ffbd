import StackWalk.AddressSpace
import StackWalk.Cfi.SearchTable
import StackWalk.Image.ByteMemory
import StackWalk.Image.RegisterFile

/-!
# The image of a program

An address space made up of given bytes, register files and tables: which
procedures there are and how each is found, which have names, and which
accesses fail.  It counts lookups and releases and keeps the words written.
-/

namespace StackWalk.Image

/-- Whether an address lies from `start` up to, and without, `stop`. -/
def inRange (start stop addr : UInt64) : Bool :=
  start ≤ addr && addr < stop

/-- How the procedure of an address is found. -/
inductive ProcSource where
  /-- Through the header of a search table. -/
  | header (addr : UInt64)
  /-- Along a chain of entries. -/
  | chain (start stop : UInt64) (frameSection : FrameSection) (bases : PointerBases)
  /-- Not at all. -/
  | failure (error : UnwindError)
  /-- As it is given. -/
  | given (info : ProcInfo)
  deriving DecidableEq, Repr

/-- A range of addresses and how their procedure is found. -/
structure ProcEntry where
  start : UInt64
  stop : UInt64
  source : ProcSource
  deriving DecidableEq, Repr

/-- A range of addresses and the name of their procedure. -/
structure NameEntry where
  start : UInt64
  stop : UInt64
  name : String
  deriving DecidableEq, Repr

/-- What does not change while an image is used. -/
structure ImageConfig where
  arch : Arch
  /-- Registers that cannot be accessed. -/
  badRegs : List Column := []
  /-- Ranges of addresses that fail to be probed. -/
  noProbe : List (UInt64 × UInt64) := []
  names : List NameEntry := []
  /-- The image offers general registers, memory and lookups only. -/
  minimal : Bool := false
  /-- Each lookup changes the unwind information. -/
  changesOnLookup : Bool := false
  deriving DecidableEq, Repr

/-- What changes while an image is used. -/
structure ByteImage where
  memory : ByteMemory
  /-- The register files of the threads. -/
  threads : Array RegisterFile
  procs : List ProcEntry
  lookups : Nat := 0
  releases : Nat := 0
  /-- The words written, the latest first. -/
  writes : List (UInt64 × UInt64) := []

namespace ByteImage

def registers (image : ByteImage) (thread : Nat) : RegisterFile :=
  (image.threads[thread]?).getD .empty

def modifyRegisters (image : ByteImage) (thread : Nat) (change : RegisterFile → RegisterFile) :
    ByteImage :=
  { image with threads := image.threads.modify thread change }

end ByteImage

namespace ImageConfig

def checkGeneral (config : ImageConfig) (reg : Column) : Except UnwindError Unit :=
  if config.arch.numRegs ≤ reg ∨ reg ∈ config.badRegs then
    .error (.badRegister (UInt64.ofNat reg))
  else
    .ok ()

def checkFloating (config : ImageConfig) (reg : Column) : Except UnwindError Unit :=
  if config.minimal ∨ !config.arch.isFp reg ∨ reg ∈ config.badRegs then
    .error (.badRegister (UInt64.ofNat reg))
  else
    .ok ()

/-- What a thread can read, without probing. -/
def target (config : ImageConfig) (image : ByteImage) (thread : Nat) : Target where
  arch := config.arch
  loadWord addr := image.memory.loadWord config.arch addr
  loadReg reg := do
    config.checkGeneral reg
    return (image.registers thread).get reg
  loadFpReg reg := do
    config.checkFloating reg
    return (image.registers thread).getFp reg

/-- The procedure of `ip` by the way it is found. -/
def resolve (target : Target) (ip : UInt64) : ProcSource → Except UnwindError ProcInfo
  | .header addr =>
      Cfi.findProcInHeader target addr ip
  | .chain start stop frameSection bases => do
      let fde ← Cfi.searchSection target frameSection bases stop ip start
      return fde.procInfo frameSection bases
  | .failure error =>
      .error error
  | .given info =>
      .ok info

/-- Looks up the procedure of `ip`. -/
def findProc (config : ImageConfig) (image : ByteImage) (thread : Nat) (ip : UInt64) :
    Lookup ByteImage where
  answer :=
    match image.procs.find? fun entry => inRange entry.start entry.stop ip with
    | some entry => resolve (config.target image thread) ip entry.source
    | none => .error (.noInfo ip)
  world := { image with lookups := image.lookups + 1 }
  changes := if config.changesOnLookup then 1 else 0

/-- The name of the procedure of `ip`. -/
def procName (config : ImageConfig) (ip : UInt64) (room : Nat) : Except UnwindError ProcName :=
  let named :=
    if config.minimal then
      none
    else
      config.names.find? fun entry => inRange entry.start entry.stop ip
  match named with
  | some entry => .ok ⟨entry.name.toUTF8.toList.take room, ip - entry.start⟩
  | none => .error (.noInfo ip)

def probe (config : ImageConfig) (addr : UInt64) : Except UnwindError Unit :=
  if !config.minimal && config.noProbe.any fun (start, stop) => inRange start stop addr then
    .error (.unreadable addr)
  else
    .ok ()

def storeWord (config : ImageConfig) (addr value : UInt64) : Action ByteImage Unit := do
  let image ← get
  let memory ← image.memory.storeWord config.arch addr value
  set { image with memory := memory, writes := (addr, value) :: image.writes }

/-- The address space of an image.  Threads are numbered as their register
files are. -/
def space (config : ImageConfig) : AddressSpace ByteImage Nat where
  arch := config.arch
  loadWord image thread := (config.target image thread).loadWord
  storeWord _ addr value := config.storeWord addr value
  loadReg image thread := (config.target image thread).loadReg
  storeReg thread reg value := do
    config.checkGeneral reg
    modify (·.modifyRegisters thread (·.set reg value))
  loadFpReg image thread := (config.target image thread).loadFpReg
  storeFpReg thread reg image := do
    config.checkFloating reg
    modify (·.modifyRegisters thread (·.setFp reg image))
  findProc := config.findProc
  releaseProc image _ _ :=
    if config.minimal then image else { image with releases := image.releases + 1 }
  procName _ _ := config.procName
  probe _ _ := config.probe

end ImageConfig
end StackWalk.Image
