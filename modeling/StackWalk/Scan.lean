import StackWalk.Action
import StackWalk.Target

/-!
# Reading a target byte by byte

A `Scan` reads at a position and moves it past what it has read.  Single bytes
and numbers of a fixed size leave the position alone when they fail.  No scan
ever moves the position backwards, which is why everything that is decoded in
a loop comes to an end.
-/

namespace StackWalk

/-- A reading at a position of the target's memory. -/
abbrev Scan (α : Type) := Action UInt64 α

/-- The position `length` bytes on.  No reading goes past the last address. -/
def advance (pos length : UInt64) : Except UnwindError UInt64 :=
  match checkedAdd pos length with
  | some next => .ok next
  | none => .error (.unreadable pos)

namespace Target

def readU8 (target : Target) : Scan UInt8 := do
  let pos ← get
  let next ← advance pos 1
  let byte ← target.readByte pos
  set next
  return byte

/-- The `count` bytes from `pos` on. -/
def readBytes (target : Target) (pos : UInt64) : Nat → Except UnwindError (List UInt8)
  | 0 =>
      .ok []
  | count + 1 => do
      let byte ← target.readByte pos
      let rest ← target.readBytes (pos + 1) count
      return byte :: rest

end Target

/-- The number that bytes spell with the least significant byte first. -/
def wordOfBytesLE (bytes : List UInt8) : UInt64 :=
  bytes.foldr (fun byte value => byte.toUInt64 + 256 * value) 0

def wordOfBytes (endian : Endian) (bytes : List UInt8) : UInt64 :=
  match endian with
  | .little => wordOfBytesLE bytes
  | .big => wordOfBytesLE bytes.reverse

/-- The `size` low bytes of a number, least significant first. -/
def bytesOfWordLE (size : Nat) (value : UInt64) : List UInt8 :=
  (List.range size).map fun i => UInt8.ofNat (value.toNat >>> (8 * i))

/-- The `size` low bytes of a number in the given order. -/
def bytesOfWord (endian : Endian) (size : Nat) (value : UInt64) : List UInt8 :=
  match endian with
  | .little => bytesOfWordLE size value
  | .big => (bytesOfWordLE size value).reverse

namespace Target

/-- An unsigned number of `size` bytes in the byte order of the target. -/
def readUInt (target : Target) (size : Nat) : Scan UInt64 := do
  let pos ← get
  let next ← advance pos (UInt64.ofNat size)
  let bytes ← target.readBytes pos size
  set next
  return wordOfBytes target.arch.endian bytes

def readTargetWord (target : Target) : Scan UInt64 :=
  target.readUInt target.arch.addressSize

end Target

/-! ## Scans move forward -/

/-- After a success the position is not before the one the scan began at. -/
def Scan.MovesForward {α : Type} (scan : Scan α) : Prop :=
  ∀ pos, Action.Ensures scan pos fun _ next => pos.toNat ≤ next.toNat

namespace Scan.MovesForward

variable {α β : Type}

theorem pure (a : α) : MovesForward (Pure.pure a : Scan α) :=
  fun _ => .pure (Nat.le_refl _)

theorem bind {scan : Scan α} {f : α → Scan β} (hscan : scan.MovesForward)
    (hf : ∀ a, (f a).MovesForward) : MovesForward (scan >>= f) :=
  fun pos => .bind (hscan pos) fun a next hnext =>
    (hf a next).mono fun _ _ hlast => Nat.le_trans hnext hlast

theorem map {scan : Scan α} (f : α → β) (h : scan.MovesForward) :
    MovesForward (f <$> scan) := by
  rw [map_eq_pure_bind]
  exact bind h fun a => pure _

theorem ofExcept (given : Except UnwindError α) : MovesForward (liftM given : Scan α) :=
  fun _ => Action.Ensures.ofExcept.mono fun _ _ h => Nat.le_of_eq (by rw [h.2])

theorem throw (e : UnwindError) : MovesForward (MonadExcept.throw e : Scan α) :=
  fun _ => .throw

theorem get : MovesForward (MonadState.get : Scan UInt64) :=
  fun _ => Action.Ensures.get.mono fun _ _ h => Nat.le_of_eq (by rw [h.2])

end Scan.MovesForward

theorem toNat_advance {pos length next : UInt64} (h : advance pos length = .ok next) :
    next.toNat = pos.toNat + length.toNat := by
  unfold advance at h
  split at h
  · rename_i n hn
    cases h
    exact toNat_checkedAdd hn
  · cases h

namespace Target

theorem readU8_ensures (target : Target) (pos : UInt64) :
    Action.Ensures target.readU8 pos fun byte next =>
      next.toNat = pos.toNat + 1 ∧ target.readByte pos = .ok byte := by
  refine .bind .get ?_
  rintro _ _ ⟨rfl, rfl⟩
  refine .bind .ofExcept ?_
  rintro next _ ⟨hnext, rfl⟩
  refine .bind .ofExcept ?_
  rintro byte _ ⟨hbyte, rfl⟩
  refine .bind .set ?_
  rintro _ _ rfl
  exact .pure ⟨by rw [toNat_advance hnext]; rfl, hbyte⟩

theorem readU8_eq_ok {target : Target} {pos next : UInt64} {byte : UInt8}
    (h : target.readU8 pos = .ok byte next) :
    next.toNat = pos.toNat + 1 ∧ target.readByte pos = .ok byte :=
  target.readU8_ensures pos byte next h

theorem readU8_movesForward (target : Target) : target.readU8.MovesForward := by
  intro pos byte next h
  have := (readU8_eq_ok h).1
  omega

theorem readUInt_ensures (target : Target) (size : Nat) (pos : UInt64) :
    Action.Ensures (target.readUInt size) pos fun _ next =>
      next.toNat = pos.toNat + (UInt64.ofNat size).toNat := by
  refine .bind .get ?_
  rintro _ _ ⟨rfl, rfl⟩
  refine .bind .ofExcept ?_
  rintro next _ ⟨hnext, rfl⟩
  refine .bind .ofExcept ?_
  rintro bytes _ ⟨_, rfl⟩
  refine .bind .set ?_
  rintro _ _ rfl
  exact .pure (toNat_advance hnext)

theorem readUInt_movesForward (target : Target) (size : Nat) :
    (target.readUInt size).MovesForward :=
  fun pos => (target.readUInt_ensures size pos).mono fun _ _ h => by omega

theorem readTargetWord_movesForward (target : Target) :
    target.readTargetWord.MovesForward :=
  target.readUInt_movesForward _

end Target
end StackWalk
