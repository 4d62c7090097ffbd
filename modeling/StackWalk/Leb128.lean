import StackWalk.Scan

/-!
# LEB128 numbers

A number is written in groups of seven bits, least significant first, one to
a byte; all bytes but the last have their high bit set.  A signed number is
extended from bit six of its last byte.  The number may be padded, and is taken
modulo `2 ^ 64`.  Its bits are counted in 32 bits as they are read, which is
enough for the first six hundred million bytes.
-/

namespace StackWalk.Leb128

def group (byte : UInt8) : UInt64 :=
  (byte &&& 0x7f).toUInt64

def continues (byte : UInt8) : Bool :=
  0x80 ≤ byte

/-- What has been read of a number: the groups so far as a word, and how many
bits they have. -/
structure Gathered where
  value : UInt64
  bits : UInt32
  deriving DecidableEq, Repr

/-- The next group lies above those before it.  From bit 64 on a word has no room
for it.  Behind the last number of 32 bits the count begins again. -/
def Gathered.add (gathered : Gathered) (byte : UInt8) : Gathered where
  value :=
    if gathered.bits < 64 then
      gathered.value ||| (group byte <<< gathered.bits.toUInt64)
    else
      gathered.value
  bits := gathered.bits + 7

def gather (bytes : List UInt8) : Gathered :=
  bytes.foldl .add ⟨0, 0⟩

def unsigned (bytes : List UInt8) : UInt64 :=
  (gather bytes).value

/-- Whether bit six of the last byte is set. -/
def isNegative (bytes : List UInt8) : Bool :=
  bytes.getLast?.any fun last => last &&& 0x40 != 0

/-- The signed number that bytes stand for, as a word.  The sign fills the bits
that were not read, if there are any. -/
def signedWord (bytes : List UInt8) : UInt64 :=
  let gathered := gather bytes
  if gathered.bits < 64 ∧ isNegative bytes then
    gathered.value ||| (maxWord <<< gathered.bits.toUInt64)
  else
    gathered.value

def signed (bytes : List UInt8) : Int64 :=
  (signedWord bytes).toInt64

/-- The shortest bytes of an unsigned number. -/
def encodeNat (n : Nat) : List UInt8 :=
  if n < 128 then
    [UInt8.ofNat n]
  else
    UInt8.ofNat (n % 128 + 128) :: encodeNat (n / 128)
termination_by n
decreasing_by omega

def encodeUnsigned (n : UInt64) : List UInt8 :=
  encodeNat n.toNat

/-- The shortest bytes of a signed number: the last group keeps the sign in
its bit six. -/
def encodeInt (n : Int) : List UInt8 :=
  if -64 ≤ n ∧ n < 64 then
    [UInt8.ofNat (n % 128).toNat]
  else
    UInt8.ofNat ((n % 128).toNat + 128) :: encodeInt (n / 128)
termination_by n.natAbs
decreasing_by omega

def encodeSigned (n : Int64) : List UInt8 :=
  encodeInt n.toInt

end StackWalk.Leb128

namespace StackWalk.Target

/-- The bytes of a LEB128 number, up to the first that no other follows.  When
a byte cannot be read the position stays at that byte. -/
def readLeb128Bytes (target : Target) (pos : UInt64) :
    EStateM.Result UnwindError UInt64 (List UInt8) :=
  match _hread : target.readU8 pos with
  | .error e next =>
      .error e next
  | .ok byte next =>
      if Leb128.continues byte then
        match target.readLeb128Bytes next with
        | .ok rest last => .ok (byte :: rest) last
        | .error e last => .error e last
      else
        .ok [byte] next
termination_by UInt64.size - pos.toNat
decreasing_by
  have := (readU8_eq_ok _hread).1
  have := next.toNat_lt_size
  omega

/-- Whether counting the bits of a LEB128 number, of which `bits` stand before
`pos`, goes past 32 bits, where checked arithmetic stops the program.  A byte is
counted once it is read, the last one too. -/
def leb128Overflows (target : Target) (bits : UInt32) (pos : UInt64) : Bool :=
  match _hread : target.readU8 pos with
  | .error _ _ =>
      false
  | .ok byte next =>
      bits + 7 < bits || Leb128.continues byte && target.leb128Overflows (bits + 7) next
termination_by UInt64.size - pos.toNat
decreasing_by
  have := (readU8_eq_ok _hread).1
  have := next.toNat_lt_size
  omega

/-- An unsigned LEB128 number. -/
def readULeb128 (target : Target) : Scan UInt64 := do
  let bytes ← target.readLeb128Bytes
  return Leb128.unsigned bytes

/-- A signed LEB128 number. -/
def readSLeb128 (target : Target) : Scan Int64 := do
  let bytes ← target.readLeb128Bytes
  return Leb128.signed bytes

theorem readLeb128Bytes_movesForward (target : Target) :
    Scan.MovesForward target.readLeb128Bytes := by
  intro pos bytes last h
  fun_induction target.readLeb128Bytes pos generalizing bytes last with
  | case1 =>
      cases h
  | case2 pos byte next hread hcont rest stop hrest ih =>
      cases h
      have := (readU8_eq_ok hread).1
      have := ih _ _ hrest
      omega
  | case3 =>
      cases h
  | case4 pos byte next hread =>
      cases h
      have := (readU8_eq_ok hread).1
      omega

theorem readULeb128_movesForward (target : Target) : target.readULeb128.MovesForward :=
  .bind target.readLeb128Bytes_movesForward fun _ => .pure _

theorem readSLeb128_movesForward (target : Target) : target.readSLeb128.MovesForward :=
  .bind target.readLeb128Bytes_movesForward fun _ => .pure _

end StackWalk.Target
