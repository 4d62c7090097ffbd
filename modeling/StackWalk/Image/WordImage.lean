import StackWalk.AddressSpace
import StackWalk.Image.RegisterFile
import StackWalk.Scan

/-!
# An image kept in words

Memory is a partial map from aligned addresses to words.  Every access is
rounded down to the word that holds its address, and writing maps the word.
Each procedure is given by its range and the address of its description.
-/

namespace StackWalk.Image

/-- A procedure of a word image. -/
structure WordProc where
  start : UInt64
  stop : UInt64
  fde : UInt64
  deriving DecidableEq, Repr

/-- The state of a word image, with the registers of its thread. -/
structure WordImage where
  words : Std.HashMap UInt64 UInt64
  registers : RegisterFile
  procs : List WordProc
  lookups : Nat := 0

namespace WordImage

def empty : WordImage where
  words := ∅
  registers := .empty
  procs := []

def readWord (image : WordImage) (arch : Arch) (addr : UInt64) : Option UInt64 :=
  image.words[alignDown addr arch.wordSize]?

/-- Writes the word that holds an address, cut to the width of the target. -/
def writeWord (image : WordImage) (arch : Arch) (addr value : UInt64) : WordImage :=
  { image with
    words := image.words.insert (alignDown addr arch.wordSize) (value &&& arch.wordMask) }

/-- Puts a byte into the word that holds its address.  A word that is not
mapped yet is zero. -/
def writeByte (image : WordImage) (arch : Arch) (addr : UInt64) (byte : UInt8) : WordImage :=
  let aligned := alignDown addr arch.wordSize
  let shift := Target.byteShift arch.endian arch.wordSize (addr - aligned)
  let word := image.words.getD aligned 0
  let word := (word &&& ~~~(0xff <<< shift)) ||| (byte.toUInt64 <<< shift)
  { image with words := image.words.insert aligned word }

/-- Puts bytes into memory from `addr` on. -/
def writeBytes (image : WordImage) (arch : Arch) (addr : UInt64) : List UInt8 → WordImage
  | [] =>
      image
  | byte :: rest =>
      writeBytes (image.writeByte arch addr byte) arch (addr + 1) rest

/-- Adds a procedure after the others. -/
def addProc (image : WordImage) (proc : WordProc) : WordImage :=
  { image with procs := image.procs ++ [proc] }

/-- The word that holds an address, or the error for that address. -/
def loadWord (image : WordImage) (arch : Arch) (addr : UInt64) : Except UnwindError UInt64 :=
  match image.readWord arch addr with
  | some word => .ok word
  | none => .error (.unreadable addr)

def checkFloating (arch : Arch) (reg : Column) : Except UnwindError Unit :=
  if arch.isFp reg then
    .ok ()
  else
    .error (.badRegister (UInt64.ofNat reg))

/-- The procedure of `ip`. -/
def resolve (image : WordImage) (ip : UInt64) : Except UnwindError ProcInfo :=
  match image.procs.find? fun proc => proc.start ≤ ip && ip < proc.stop with
  | some proc =>
      .ok { start := proc.start, stop := proc.stop, unwindInfo := .dwarf proc.fde .ehFrame }
  | none =>
      .error (.noInfo ip)

def space (arch : Arch) : AddressSpace WordImage Unit where
  arch := arch
  loadWord image _ addr := image.loadWord arch addr
  storeWord _ addr value := modify (·.writeWord arch addr value)
  loadReg image _ reg := do
    let reg ← arch.checkColumn reg
    return image.registers.get reg
  storeReg _ reg value := do
    let reg ← arch.checkColumn reg
    modify fun image => { image with registers := image.registers.set reg value }
  loadFpReg image _ reg := do
    checkFloating arch reg
    return image.registers.getFp reg
  storeFpReg _ reg value := do
    checkFloating arch reg
    modify fun image => { image with registers := image.registers.setFp reg value }
  findProc image _ ip :=
    { answer := image.resolve ip
      world := { image with lookups := image.lookups + 1 }
      changes := 0 }
  releaseProc image _ _ := image
  procName _ _ ip _ := .error (.noInfo ip)
  probe image _ addr := do
    let _ ← image.loadWord arch addr

end WordImage
end StackWalk.Image
