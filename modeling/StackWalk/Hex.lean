/-!
# Hexadecimal numbers

Addresses and register images are written with the mark `0x`, lower-case
digits and no leading zeros.
-/

namespace StackWalk

/-- The text of `n` in base sixteen, as in `0x1f`. -/
def hex (n : Nat) : String :=
  "0x" ++ String.ofList (Nat.toDigits 16 n)

/-- The value of one digit of base sixteen, in either case. -/
def hexDigit? (c : Char) : Option Nat :=
  if c.isDigit then
    some (c.toNat - 48)
  else if 97 ≤ c.toNat ∧ c.toNat ≤ 102 then
    some (c.toNat - 87)
  else if 65 ≤ c.toNat ∧ c.toNat ≤ 70 then
    some (c.toNat - 55)
  else
    none

/-- The number that a list of digits of base sixteen spells, most significant
digit first. -/
def ofHexDigits? (digits : List Char) : Option Nat :=
  digits.foldlM (fun value c => (hexDigit? c).map (16 * value + ·)) 0

/-- The bytes that pairs of digits spell; `none` when a digit is left over or
is not of base sixteen. -/
def bytesOfHex? : List Char → Option (List UInt8)
  | [] =>
      some []
  | high :: low :: rest => do
      let h ← hexDigit? high
      let l ← hexDigit? low
      let bytes ← bytesOfHex? rest
      return UInt8.ofNat (16 * h + l) :: bytes
  | [_] =>
      none

def hexByte (b : UInt8) : String :=
  String.ofList [Nat.digitChar (b.toNat / 16), Nat.digitChar (b.toNat % 16)]

/-- The bytes as pairs of digits, without a mark in front. -/
def hexOfBytes (bytes : List UInt8) : String :=
  String.join (bytes.map hexByte)

end StackWalk
