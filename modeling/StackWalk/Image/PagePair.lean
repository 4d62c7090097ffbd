import StackWalk.AddressSpace
import StackWalk.Arch.Shipped
import StackWalk.Image.ByteMemory
import StackWalk.Image.RegisterFile

/-!
# A process with two pages

The address space of a running process, as far as two adjacent pages of it go:
memory that is read in place, the registers of the current thread, and no
loaded objects that could tell about procedures.  An address is probed by
asking whether the pages of the word there are mapped.
-/

namespace StackWalk.Image

def pageSize : UInt64 := 4096

/-- The two mapped pages and the registers. -/
structure PagePair where
  /-- The address of the first page. -/
  base : UInt64
  memory : ByteMemory
  registers : RegisterFile

namespace PagePair

/-- Two pages of zeros. -/
def zeroed (base : UInt64) (registers : RegisterFile) : PagePair where
  base := base
  memory := ByteMemory.empty.fill base (List.replicate (2 * pageSize.toNat) 0)
  registers := registers

def isMapped (pages : PagePair) (addr : UInt64) : Bool :=
  let page := alignDown addr pageSize
  page == pages.base || page == pages.base + pageSize

/-- Probes the pages of the first and the last byte of a word. -/
def probe (pages : PagePair) (arch : Arch) (addr : UInt64) : Except UnwindError Unit :=
  if pages.isMapped addr && pages.isMapped (addr + (arch.wordSize - 1)) then
    .ok ()
  else
    .error (.unreadable addr)

def space (arch : Arch) : AddressSpace PagePair Unit where
  arch := arch
  loadWord pages _ addr := pages.memory.loadWord arch addr
  storeWord _ addr value := do
    let pages ← get
    let memory ← pages.memory.storeWord arch addr value
    set { pages with memory := memory }
  loadReg pages _ reg := do
    let reg ← arch.checkColumn reg
    return pages.registers.get reg
  storeReg _ reg value := do
    let reg ← arch.checkColumn reg
    modify fun pages => { pages with registers := pages.registers.set reg value }
  loadFpReg _ _ reg := .error (.badRegister (UInt64.ofNat reg))
  storeFpReg _ reg _ := throw (.badRegister (UInt64.ofNat reg))
  findProc pages _ ip := { answer := .error (.noInfo ip), world := pages, changes := 0 }
  releaseProc pages _ _ := pages
  procName _ _ ip _ := .error (.noInfo ip)
  probe pages _ addr := pages.probe arch addr

end PagePair
end StackWalk.Image
