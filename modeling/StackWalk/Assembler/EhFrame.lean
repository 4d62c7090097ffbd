import StackWalk.Assembler.Program
import StackWalk.Image.WordImage

/-!
# Laying out an exception frame section

Entries are laid out one after the other from a base address.  A shared entry
has the augmentation `zR` and plain word-sized addresses; each entry is padded
to the word size with instructions that do nothing, and after the last follow
eight zero bytes.
-/

namespace StackWalk.Assembler

/-- What an entry of the section says. -/
inductive EntrySpec where
  | cie (codeAlign : UInt64) (dataAlign : Int64) (returnAddress : UInt8) (program : List Call)
  /-- The description of a procedure; `cie` counts the entries before its
  shared one. -/
  | fde (cie : Nat) (start stop : UInt64) (program : List Call)
  deriving DecidableEq, Repr

/-- A section under construction. -/
structure EhFrame where
  arch : Arch
  base : UInt64
  bytes : List UInt8
  /-- The addresses of the entries, in order. -/
  addresses : List UInt64
  /-- The procedures described so far, in order. -/
  procs : List Image.WordProc
  deriving DecidableEq, Repr

namespace EhFrame

def empty (arch : Arch) (base : UInt64) : EhFrame where
  arch := arch
  base := base
  bytes := []
  addresses := []
  procs := []

def here (frame : EhFrame) : UInt64 :=
  frame.base + UInt64.ofNat frame.bytes.length

def addressOf (frame : EhFrame) (index : Nat) : UInt64 :=
  (frame.addresses[index]?).getD 0

def uint (frame : EhFrame) (size : Nat) (value : UInt64) : List UInt8 :=
  bytesOfWord frame.arch.endian size value

/-- The fields and the program of the next entry, after its length. -/
def body (frame : EhFrame) : EntrySpec → List UInt8
  | .cie codeAlign dataAlign returnAddress program =>
      frame.uint 4 0 ++ [1] ++ "zR".toUTF8.toList ++ [0] ++ Leb128.encodeUnsigned codeAlign ++
        Leb128.encodeSigned dataAlign ++ [returnAddress] ++ Leb128.encodeUnsigned 1 ++ [0x00] ++
        assemble program
  | .fde cie start stop program =>
      frame.uint 4 (frame.here + 4 - frame.addressOf cie) ++
        frame.uint frame.arch.addressSize start ++
        frame.uint frame.arch.addressSize (stop - start) ++ Leb128.encodeUnsigned 0 ++
        assemble program

/-- The bytes of the next entry: its length, its body and the padding.  The
length does not count itself. -/
def entryBytes (frame : EhFrame) (spec : EntrySpec) : List UInt8 :=
  let size := frame.arch.addressSize
  let content := frame.body spec
  let padding := (size - (4 + content.length) % size) % size
  frame.uint 4 (UInt64.ofNat (content.length + padding)) ++ content ++ List.replicate padding 0

def procOf (address : UInt64) : EntrySpec → List Image.WordProc
  | .cie .. => []
  | .fde _ start stop _ => [⟨start, stop, address⟩]

def add (frame : EhFrame) (spec : EntrySpec) : EhFrame :=
  { frame with
    bytes := frame.bytes ++ frame.entryBytes spec
    addresses := frame.addresses ++ [frame.here]
    procs := frame.procs ++ procOf frame.here spec }

def layOut (arch : Arch) (base : UInt64) (specs : List EntrySpec) : EhFrame :=
  specs.foldl add (empty arch base)

/-- Puts the section into memory, with the zero bytes that end it. -/
def install (frame : EhFrame) (image : Image.WordImage) : Image.WordImage :=
  let image := image.writeBytes frame.arch frame.base frame.bytes
  image.writeBytes frame.arch frame.here (List.replicate 8 0)

end EhFrame
end StackWalk.Assembler
