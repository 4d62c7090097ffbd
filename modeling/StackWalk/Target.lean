import StackWalk.Arch

/-!
# The target of an unwind

A `Target` is one thread of the unwound program as it can be read at one
moment: memory a word at a time, and the two kinds of registers.  Every read
may fail with any error.  Bytes are taken out of the aligned word that holds
them, so memory only ever sees accesses of a whole word.
-/

namespace StackWalk

/-- A floating-point register image, padded with zero bits. -/
abbrev FpImage := BitVec 128

/-- What can be read of a thread at one moment. -/
structure Target where
  arch : Arch
  /-- The word at an address, aligned or not. -/
  loadWord : UInt64 → Except UnwindError UInt64
  /-- The value of a general register. -/
  loadReg : Column → Except UnwindError UInt64
  /-- The image of a floating-point register. -/
  loadFpReg : Column → Except UnwindError FpImage

namespace Target

/-- The word at `addr`, cut to the width of the target. -/
def readWord (target : Target) (addr : UInt64) : Except UnwindError UInt64 := do
  let word ← target.loadWord addr
  return word &&& target.arch.wordMask

/-- How far the byte at index `index` of a word of `size` bytes is shifted. -/
def byteShift (endian : Endian) (size index : UInt64) : UInt64 :=
  match endian with
  | .little => index * 8
  | .big => (size - 1 - index) * 8

/-- The byte at `addr`. -/
def readByte (target : Target) (addr : UInt64) : Except UnwindError UInt8 := do
  let size := target.arch.wordSize
  let aligned := alignDown addr size
  let word ← target.readWord aligned
  return (word >>> byteShift target.arch.endian size (addr - aligned)).toUInt8

/-- Whether one byte of code is as a pattern has it; `none` matches without
looking. -/
def byteMatches (target : Target) (addr : UInt64) : Option UInt8 → Bool
  | none =>
      true
  | some expected =>
      match target.readByte addr with
      | .ok byte => byte == expected
      | .error _ => false

/-- Whether the bytes from `addr` on are as the pattern has them.  Behind the
last address comes the first one again. -/
def codeMatches (target : Target) (addr : UInt64) : List (Option UInt8) → Bool
  | [] =>
      true
  | expected :: rest =>
      target.byteMatches addr expected && target.codeMatches (addr + 1) rest

/-- Whether comparing the code at `addr` with a pattern counts past the last
address, where checked arithmetic stops the program.  The address behind a byte
is worked out before the byte is looked at, and where a byte differs the rest
is left alone. -/
def matchOverflows (target : Target) (addr : UInt64) : List (Option UInt8) → Bool
  | [] =>
      false
  | expected :: rest =>
      addr == maxWord || target.byteMatches addr expected && target.matchOverflows (addr + 1) rest

end Target
end StackWalk
