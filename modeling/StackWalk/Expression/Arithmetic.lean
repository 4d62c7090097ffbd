import StackWalk.UnwindError
import StackWalk.Word

/-!
# Arithmetic of location expressions

The cells of the stack are words of the target, kept in the low bits of 64-bit
words.  Division, comparison and the arithmetic shift take them as signed
numbers of the target's width, everything else as unsigned ones.
-/

namespace StackWalk.Expression

/-- An operation on the two topmost cells. -/
inductive BinaryOp where
  | and
  | div
  | minus
  | mod
  | mul
  | or
  | plus
  | shl
  | shr
  | shra
  | xor
  | eq
  | ge
  | gt
  | le
  | lt
  | ne
  deriving DecidableEq, Repr

/-- An operation on the topmost cell. -/
inductive UnaryOp where
  | abs
  | neg
  | not
  deriving DecidableEq, Repr

/-- The signed number that a cell of `bits` bits stands for. -/
def signedCell (bits : Nat) (cell : UInt64) : Int64 :=
  (signExtend bits cell).toInt64

/-- One for true and zero for false. -/
def truth (b : Bool) : UInt64 :=
  if b then 1 else 0

/-- The result of an operation, before it is cut to the width of a cell. -/
def UnaryOp.apply (bits : Nat) (a : UInt64) : UnaryOp → UInt64
  | .abs =>
      let signed := signedCell bits a
      if signed < 0 then (-signed).toUInt64 else signed.toUInt64
  | .neg =>
      0 - a
  | .not =>
      ~~~a

/-- The result of an operation on `a`, which lies below `b`, before it is cut
to the width of a cell. -/
def BinaryOp.apply (bits : Nat) (a b : UInt64) : BinaryOp → Except UnwindError UInt64
  | .and => .ok (a &&& b)
  | .div =>
      if signedCell bits b = 0 then
        .error (.invalidArgument .divisionByZero)
      else
        .ok (signedCell bits a / signedCell bits b).toUInt64
  | .minus => .ok (a - b)
  | .mod =>
      if b = 0 then
        .error (.invalidArgument .divisionByZero)
      else
        .ok (a % b)
  | .mul => .ok (a * b)
  | .or => .ok (a ||| b)
  | .plus => .ok (a + b)
  | .shl => .ok (if b < 64 then a <<< b else 0)
  | .shr => .ok (if b < 64 then a >>> b else 0)
  | .shra => .ok (signedCell bits a >>> (min b 63).toInt64).toUInt64
  | .xor => .ok (a ^^^ b)
  | .eq => .ok (truth (signedCell bits a == signedCell bits b))
  | .ge => .ok (truth (signedCell bits b ≤ signedCell bits a))
  | .gt => .ok (truth (signedCell bits b < signedCell bits a))
  | .le => .ok (truth (signedCell bits a ≤ signedCell bits b))
  | .lt => .ok (truth (signedCell bits a < signedCell bits b))
  | .ne => .ok (truth (signedCell bits a != signedCell bits b))

def BinaryOp.ofOpcode? : UInt8 → Option BinaryOp
  | 0x1a => some .and
  | 0x1b => some .div
  | 0x1c => some .minus
  | 0x1d => some .mod
  | 0x1e => some .mul
  | 0x21 => some .or
  | 0x22 => some .plus
  | 0x24 => some .shl
  | 0x25 => some .shr
  | 0x26 => some .shra
  | 0x27 => some .xor
  | 0x29 => some .eq
  | 0x2a => some .ge
  | 0x2b => some .gt
  | 0x2c => some .le
  | 0x2d => some .lt
  | 0x2e => some .ne
  | _ => none

def UnaryOp.ofOpcode? : UInt8 → Option UnaryOp
  | 0x19 => some .abs
  | 0x1f => some .neg
  | 0x20 => some .not
  | _ => none

end StackWalk.Expression
