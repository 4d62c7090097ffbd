import Mathlib.Tactic
import StackWalk.Proofs.Action
import StackWalk.Proofs.Word
import StackWalk.Scan

/-!
# Reading what stands in memory

`Reads` says of a scan that it answers a value where certain bytes stand, and
goes on behind them.  Where scans follow one another the bytes do too, so what a
format is read as is found field by field.
-/

namespace StackWalk

variable {target : Target} {pos : UInt64} {α β : Type}

namespace Target

/-- The bytes stand at consecutive addresses. -/
def Holds (target : Target) : UInt64 → List UInt8 → Prop
  | _, [] => True
  | addr, byte :: rest => target.readByte addr = .ok byte ∧ target.Holds (addr + 1) rest

theorem add_ofNat_length (pos : UInt64) (first second : List UInt8) :
    pos + UInt64.ofNat first.length + UInt64.ofNat second.length =
      pos + UInt64.ofNat (first ++ second).length := by
  rw [List.length_append, UInt64.ofNat_add, UInt64.add_assoc]

theorem add_one_add_ofNat (pos : UInt64) (n : Nat) :
    pos + 1 + UInt64.ofNat n = pos + UInt64.ofNat (n + 1) := by
  rw [Nat.add_comm, UInt64.ofNat_add, ← UInt64.add_assoc]
  rfl

theorem holds_append {first second : List UInt8} :
    target.Holds pos (first ++ second) ↔
      target.Holds pos first ∧ target.Holds (pos + UInt64.ofNat first.length) second := by
  induction first generalizing pos with
  | nil => simp [Holds]
  | cons byte rest ih =>
      simp only [List.cons_append, Holds, ih, add_one_add_ofNat, List.length_cons, and_assoc]

theorem Holds.of_begins {part whole : List UInt8} (h : target.Holds pos whole)
    (hpart : part <+: whole) : target.Holds pos part := by
  obtain ⟨rest, rfl⟩ := hpart
  exact (holds_append.mp h).1

theorem Holds.readBytes {bytes : List UInt8} (h : target.Holds pos bytes) :
    target.readBytes pos bytes.length = .ok bytes := by
  induction bytes generalizing pos with
  | nil => rfl
  | cons byte rest ih =>
      simp only [List.length_cons, Target.readBytes, h.1, ih h.2, ok_bind]
      rfl

/-- Where the bytes stand, the scan answers `a` and goes on behind them. -/
def Reads (target : Target) (pos : UInt64) (scan : Scan α) (bytes : List UInt8) (a : α) : Prop :=
  target.Holds pos bytes → pos.toNat + bytes.length < 2 ^ 64 →
    scan pos = .ok a (pos + UInt64.ofNat bytes.length)

theorem toNat_add_ofNat {n : Nat} (h : pos.toNat + n < 2 ^ 64) :
    (pos + UInt64.ofNat n).toNat = pos.toNat + n := by
  rw [UInt64.toNat_add, UInt64.toNat_ofNat_of_lt' (show n < 2 ^ 64 by omega), Nat.mod_eq_of_lt h]

theorem advance_eq_ok {n : Nat} (h : pos.toNat + n < 2 ^ 64) :
    advance pos (UInt64.ofNat n) = .ok (pos + UInt64.ofNat n) := by
  have hn : (UInt64.ofNat n).toNat = n := UInt64.toNat_ofNat_of_lt' (show n < 2 ^ 64 by omega)
  rw [← hn] at h
  simp only [advance, checkedAdd_of_lt h]

namespace Reads

theorem pure (a : α) : target.Reads pos (Pure.pure a) [] a := by
  intro _ _
  simp

theorem bind {scan : Scan α} {f : α → Scan β} {first second : List UInt8} {a : α} {b : β}
    (hscan : target.Reads pos scan first a)
    (hf : target.Reads (pos + UInt64.ofNat first.length) (f a) second b) :
    target.Reads pos (scan >>= f) (first ++ second) b := by
  intro hholds hroom
  obtain ⟨hfirst, hsecond⟩ := holds_append.mp hholds
  rw [List.length_append] at hroom
  have hnext := @toNat_add_ofNat pos first.length (by omega)
  rw [Action.bind_eq_of_ok (hscan hfirst (by omega)), hf hsecond (by omega), add_ofNat_length]

/-- What comes last may look at the position and reads nothing. -/
theorem bind_last {scan : Scan α} {f : α → Scan β} {bytes : List UInt8} {a : α} {b : β}
    (hscan : target.Reads pos scan bytes a)
    (hf : target.Reads (pos + UInt64.ofNat bytes.length) (f a) [] b) :
    target.Reads pos (scan >>= f) bytes b := by
  simpa using hscan.bind hf

theorem bind_pure {scan : Scan α} {f : α → Scan β} {bytes : List UInt8} {a : α} {b : β}
    (hscan : target.Reads pos scan bytes a) (hf : f a = Pure.pure b) :
    target.Reads pos (scan >>= f) bytes b := by
  refine hscan.bind_last ?_
  rw [hf]
  exact pure b

theorem get_bind {f : UInt64 → Scan β} {bytes : List UInt8} {b : β}
    (h : target.Reads pos (f pos) bytes b) : target.Reads pos (get >>= f) bytes b :=
  h

theorem lift_bind {given : Except UnwindError α} {f : α → Scan β} {bytes : List UInt8} {a : α}
    {b : β} (hgiven : given = .ok a) (h : target.Reads pos (f a) bytes b) :
    target.Reads pos (liftM given >>= f) bytes b := by
  rw [hgiven]
  exact h

theorem set_bind {f : PUnit → Scan β} {bytes : List UInt8} {b : β}
    (h : target.Reads pos (f ⟨⟩) bytes b) : target.Reads pos (set pos >>= f) bytes b :=
  h

theorem answer {scan : Scan α} {bytes : List UInt8} {a : α} (h : target.Reads pos scan bytes a)
    (hholds : target.Holds pos bytes) (hroom : pos.toNat + bytes.length < 2 ^ 64) :
    scan.answer pos = .ok a := by
  simp only [Action.answer, Action.perform, h hholds hroom]

end Reads

/-! ## Numbers of a fixed size -/

theorem reads_readU8 (byte : UInt8) : target.Reads pos target.readU8 [byte] byte := by
  intro hholds hroom
  have hadvance : advance pos 1 = .ok (pos + 1) := advance_eq_ok hroom
  unfold readU8
  simp only [Action.get_bind_apply, hadvance, hholds.1, Action.lift_ok_bind_apply,
    Action.set_bind_apply]
  rfl

theorem reads_readUInt (bytes : List UInt8) :
    target.Reads pos (target.readUInt bytes.length) bytes
      (wordOfBytes target.arch.endian bytes) := by
  intro hholds hroom
  unfold readUInt
  simp only [Action.get_bind_apply, advance_eq_ok hroom, hholds.readBytes,
    Action.lift_ok_bind_apply, Action.set_bind_apply]
  rfl

end Target

theorem wordOfBytesLE_digits (size n : Nat) :
    wordOfBytesLE ((List.range size).map fun i => UInt8.ofNat (n >>> (8 * i))) =
      UInt64.ofNat (n % 256 ^ size) := by
  induction size generalizing n with
  | zero => simp [wordOfBytesLE, Nat.mod_one]
  | succ size ih =>
      have hrest : (List.range size).map ((fun i => UInt8.ofNat (n >>> (8 * i))) ∘ Nat.succ) =
          (List.range size).map fun i => UInt8.ofNat ((n / 256) >>> (8 * i)) := by
        apply List.map_congr_left
        intro i _
        have hsucc : 8 * Nat.succ i = 8 + 8 * i := by omega
        rw [Function.comp_apply, hsucc, Nat.shiftRight_add, Nat.shiftRight_eq_div_pow n 8]
      rw [List.range_succ_eq_map, List.map_cons, List.map_map, hrest]
      have hfold := ih (n / 256)
      simp only [wordOfBytesLE, List.foldr_cons] at hfold ⊢
      rw [hfold, Nat.pow_succ', Nat.mod_mul, UInt64.ofNat_add, UInt64.ofNat_mul]
      congr 1
      apply UInt64.toNat_inj.mp
      have hdigit : n % 256 < 2 ^ 64 := by omega
      rw [UInt64.toNat_ofNat_of_lt' hdigit, UInt8.toNat_toUInt64]
      simp

theorem wordOfBytes_bytesOfWord (endian : Endian) (size : Nat) (value : UInt64) :
    wordOfBytes endian (bytesOfWord endian size value) =
      UInt64.ofNat (value.toNat % 256 ^ size) := by
  have hdigits : wordOfBytesLE (bytesOfWordLE size value) =
      UInt64.ofNat (value.toNat % 256 ^ size) := wordOfBytesLE_digits size value.toNat
  cases endian with
  | little => exact hdigits
  | big =>
      simp only [wordOfBytes, bytesOfWord, List.reverse_reverse]
      exact hdigits

theorem length_bytesOfWord (endian : Endian) (size : Nat) (value : UInt64) :
    (bytesOfWord endian size value).length = size := by
  cases endian <;> simp [bytesOfWord, bytesOfWordLE]

theorem toNat_wordOfBytesLE_cons (byte : UInt8) {rest : List UInt8} (h : rest.length < 8)
    (hrest : (wordOfBytesLE rest).toNat < 256 ^ rest.length) :
    (wordOfBytesLE (byte :: rest)).toNat = byte.toNat + 256 * (wordOfBytesLE rest).toNat := by
  have hbyte := byte.toNat_lt
  have hpow : 256 ^ rest.length ≤ 256 ^ 7 := Nat.pow_le_pow_right (by decide) (by omega)
  have h256 : (256 : UInt64).toNat = 256 := rfl
  have hcons : wordOfBytesLE (byte :: rest) = byte.toUInt64 + 256 * wordOfBytesLE rest := rfl
  rw [hcons, UInt64.toNat_add, UInt64.toNat_mul, UInt8.toNat_toUInt64, h256, Nat.add_mod_mod]
  exact Nat.mod_eq_of_lt (by omega)

theorem toNat_wordOfBytesLE_lt {bytes : List UInt8} (h : bytes.length ≤ 8) :
    (wordOfBytesLE bytes).toNat < 256 ^ bytes.length := by
  induction bytes with
  | nil => decide
  | cons byte rest ih =>
      rw [List.length_cons] at h ⊢
      have hbyte := byte.toNat_lt
      have hrest := ih (by omega)
      rw [toNat_wordOfBytesLE_cons byte (by omega) hrest, Nat.pow_succ]
      omega

theorem toNat_wordOfBytes_lt (endian : Endian) {bytes : List UInt8} (h : bytes.length ≤ 8) :
    (wordOfBytes endian bytes).toNat < 256 ^ bytes.length := by
  cases endian with
  | little => exact toNat_wordOfBytesLE_lt h
  | big =>
      rw [← List.length_reverse]
      exact toNat_wordOfBytesLE_lt (by rwa [List.length_reverse])

/-- As many bytes as a word of the target has are not more than one. -/
theorem wordOfBytes_le_wordMask (arch : Arch) (endian : Endian) {bytes : List UInt8}
    (h : bytes.length = arch.addressSize) : wordOfBytes endian bytes ≤ arch.wordMask := by
  have hlt := (wordOfBytes endian bytes).toNat_lt
  rw [UInt64.le_iff_toNat_le, Arch.toNat_wordMask]
  by_cases hle : arch.addressSize ≤ 8
  · have hbytes := toNat_wordOfBytes_lt endian (h.le.trans hle)
    have hbits : arch.wordBits = 8 * arch.addressSize := by rw [Arch.wordBits, Nat.min_eq_left hle]
    have hpow : 256 ^ arch.addressSize = 2 ^ arch.wordBits := by rw [hbits, Nat.pow_mul]
    rw [h, hpow] at hbytes
    omega
  · have hbits : arch.wordBits = 64 := by rw [Arch.wordBits, Nat.min_eq_right (by omega)]
    rw [hbits]
    omega

theorem Target.length_readBytes {bytes : List UInt8} {count : Nat}
    (h : target.readBytes pos count = .ok bytes) : bytes.length = count := by
  induction count generalizing pos bytes with
  | zero =>
      cases h
      rfl
  | succ count ih =>
      obtain ⟨byte, -, h⟩ := bind_eq_ok_iff.mp h
      obtain ⟨rest, hrest, hbytes⟩ := bind_eq_ok_iff.mp h
      cases hbytes
      rw [List.length_cons, ih hrest]

theorem Target.readTargetWord_le (pos : UInt64) :
    Action.Ensures target.readTargetWord pos fun value _ => value ≤ target.arch.wordMask := by
  refine .bind .get ?_
  rintro _ _ ⟨rfl, rfl⟩
  refine .bind .ofExcept ?_
  rintro next _ ⟨-, rfl⟩
  refine .bind .ofExcept ?_
  rintro bytes _ ⟨hbytes, rfl⟩
  refine .bind .set ?_
  rintro _ _ -
  exact .pure (wordOfBytes_le_wordMask _ _ (length_readBytes hbytes))

/-- The low bytes of a number are read as what they leave of it. -/
theorem Target.reads_lowBytes (size : Nat) (value : UInt64) :
    target.Reads pos (target.readUInt size) (bytesOfWord target.arch.endian size value)
      (UInt64.ofNat (value.toNat % 256 ^ size)) := by
  have hreads := @reads_readUInt target pos (bytesOfWord target.arch.endian size value)
  rwa [length_bytesOfWord, wordOfBytes_bytesOfWord] at hreads

theorem Target.reads_word {size : Nat} {value : UInt64} (h : value.toNat < 256 ^ size) :
    target.Reads pos (target.readUInt size) (bytesOfWord target.arch.endian size value) value := by
  have hreads := @reads_lowBytes target pos size value
  rwa [Nat.mod_eq_of_lt h, UInt64.ofNat_toNat] at hreads

end StackWalk
