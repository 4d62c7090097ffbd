import StackWalk.Leb128

/-!
# Assembling call frame programs

Each call adds the bytes of one instruction to a program.
-/

namespace StackWalk.Assembler

/-- One call of the assembler. -/
inductive Call where
  /-- A bare opcode. -/
  | op (opcode : UInt8)
  /-- An advance packed into its opcode; the delta is below 64. -/
  | advance (delta : UInt8)
  | defCfa (reg offset : UInt64)
  | defCfaRegister (reg : UInt64)
  | defCfaOffset (offset : UInt64)
  /-- An offset, packed into its opcode where the register is below 64. -/
  | offset (reg : UInt8) (factored : UInt64)
  | offsetExtended (reg factored : UInt64)
  | register (reg source : UInt64)
  | undefined (reg : UInt64)
  /-- Bytes as they are. -/
  | bytes (raw : List UInt8)
  deriving DecidableEq, Repr

open Leb128 (encodeUnsigned)

def Call.encode : Call → List UInt8
  | .op opcode => [opcode]
  | .advance delta => [0x40 ||| delta]
  | .defCfa reg amount => 0x0c :: (encodeUnsigned reg ++ encodeUnsigned amount)
  | .defCfaRegister reg => 0x0d :: encodeUnsigned reg
  | .defCfaOffset amount => 0x0e :: encodeUnsigned amount
  | .offset reg factored =>
      if reg < 0x40 then
        (0x80 ||| reg) :: encodeUnsigned factored
      else
        0x05 :: (encodeUnsigned reg.toUInt64 ++ encodeUnsigned factored)
  | .offsetExtended reg factored => 0x05 :: (encodeUnsigned reg ++ encodeUnsigned factored)
  | .register reg source => 0x09 :: (encodeUnsigned reg ++ encodeUnsigned source)
  | .undefined reg => 0x07 :: encodeUnsigned reg
  | .bytes raw => raw

def assemble (calls : List Call) : List UInt8 :=
  calls.flatMap Call.encode

end StackWalk.Assembler
