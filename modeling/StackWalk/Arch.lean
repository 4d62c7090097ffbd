import StackWalk.UnwindError
import StackWalk.Word

/-!
# Architectures

Everything the unwinder knows about a kind of processor is a table: how many
register columns call frame information has there, which of them play a part
in unwinding, how wide a word is, and the byte patterns and layouts the
heuristics look for.  No other module asks which processor it works for.
-/

namespace StackWalk

/-- The number of a register column of call frame information. -/
abbrev Column := Nat

/-- The number of columns that rules and locations are kept for.  No table
has more registers. -/
def maxColumns : Nat := 96

/-- The order of the bytes of a word in memory. -/
inductive Endian where
  | little
  | big
  deriving DecidableEq, Repr

def Endian.name : Endian → String
  | .little => "Little"
  | .big => "Big"

/-- What the window-save instruction means on an architecture that has it. -/
inductive WindowSave where
  /-- Columns 16 to 31 were spilled to the save area at the CFA. -/
  | registerWindows
  /-- The return address changes between signed and plain. -/
  | negateRaState
  deriving DecidableEq, Repr

def WindowSave.name : WindowSave → String
  | .registerWindows => "RegisterWindows"
  | .negateRaState => "NegateRaState"

/-- Where the kernel leaves the interrupted registers when a signal handler
returns into its trampoline. -/
structure SignalLayout where
  /-- The instruction bytes of the trampoline. -/
  trampoline : List UInt8
  /-- From the stack pointer of the trampoline to the saved registers. -/
  contextOffset : UInt64
  /-- The offset of each saved column in the saved registers. -/
  registers : List (Column × UInt64)
  deriving DecidableEq, Repr

/-- One architecture. -/
structure Arch where
  name : String
  numRegs : Column
  /-- Bytes in a word, four or eight. -/
  addressSize : Nat
  endian : Endian
  /-- The column of the instruction pointer. -/
  ip : Column
  /-- The column of the stack pointer. -/
  sp : Column
  /-- The column of the frame pointer, if the architecture has one. -/
  fp : Option Column
  /-- The column of the link register, if the architecture has one. -/
  lr : Option Column
  /-- The return-address column that compilers use. -/
  returnAddress : Column
  /-- The first floating-point column. -/
  fpStart : Column
  /-- One past the last floating-point column. -/
  fpEnd : Column
  /-- Bytes of a floating-point register in memory. -/
  fpSize : UInt64
  /-- Every instruction pointer is a multiple of this. -/
  ipAlignment : UInt64
  windowSave : Option WindowSave
  /-- The bits of a signed return address that hold its signature. -/
  raSignBits : UInt64
  /-- The first bytes of a linkage stub; `none` stands for any byte. -/
  pltEntry : Option (List (Option UInt8))
  signalFrame : Option SignalLayout
  deriving DecidableEq, Repr

namespace Arch

def wordSize (arch : Arch) : UInt64 :=
  UInt64.ofNat arch.addressSize

def wordBits (arch : Arch) : Nat :=
  8 * min arch.addressSize 8

/-- The largest word of the target. -/
def wordMask (arch : Arch) : UInt64 :=
  UInt64.ofNat (1 <<< arch.wordBits - 1)

def isFp (arch : Arch) (reg : Column) : Bool :=
  arch.fpStart ≤ reg && reg < arch.fpEnd

def checkReg (arch : Arch) (reg : UInt64) : Except UnwindError Column :=
  if reg.toNat < arch.numRegs then
    .ok reg.toNat
  else
    .error (.badRegister reg)

/-- The column itself, when the register file has it. -/
def checkColumn (arch : Arch) (reg : Column) : Except UnwindError Column :=
  if reg < arch.numRegs then
    .ok reg
  else
    .error (.badRegister (UInt64.ofNat reg))

theorem checkReg_eq_ok_iff {arch : Arch} {reg : UInt64} {column : Column} :
    arch.checkReg reg = .ok column ↔ reg.toNat < arch.numRegs ∧ column = reg.toNat := by
  unfold checkReg
  grind

end Arch
end StackWalk
