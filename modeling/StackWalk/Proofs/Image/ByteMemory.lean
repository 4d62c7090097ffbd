import StackWalk.Arch.Shipped
import StackWalk.Image.ByteMemory
import StackWalk.Proofs.Image.WordImage

/-!
# Bytes and words of one memory

A byte is cut out of the aligned word that holds it, and a number is put
together from bytes.  Where words are made of the bytes of a memory, what is cut
out is the byte that stands there, whatever the byte order and wherever the word
begins, so bytes and words show the same memory.
-/

namespace StackWalk

/-! ## Words from bytes -/

/-- The number that bytes spell, the one at place `i` counting `256 ^ i` times. -/
theorem toNat_wordOfBytesLE_ofFn {n : Nat} (h : n ≤ 8) (bytes : Fin n → UInt8) :
    (wordOfBytesLE (List.ofFn bytes)).toNat = ∑ i : Fin n, (bytes i).toNat * 256 ^ (i : Nat) := by
  induction n with
  | zero => rfl
  | succ n ih =>
      have hlength : (List.ofFn fun i : Fin n => bytes i.succ).length = n := List.length_ofFn
      have hlt := toNat_wordOfBytesLE_lt (hlength.le.trans (by omega : n ≤ 8))
      rw [List.ofFn_succ, toNat_wordOfBytesLE_cons _ (by omega) hlt, ih (by omega),
        Fin.sum_univ_succ, Finset.mul_sum]
      congr 1
      · simp
      · apply Finset.sum_congr rfl
        intro i _
        rw [Fin.val_succ, Nat.pow_succ]
        ring

theorem reverse_ofFn {n : Nat} (bytes : Fin n → UInt8) :
    (List.ofFn bytes).reverse = List.ofFn fun i => bytes i.rev := by
  apply List.ext_getElem
  · simp
  · intro i hfirst hsecond
    simp only [List.getElem_reverse, List.getElem_ofFn, List.length_ofFn, Fin.rev]
    congr 2
    omega

/-- How often 256 divides the weight of byte `i` of `n`. -/
def Endian.place (endian : Endian) (n i : Nat) : Nat :=
  match endian with
  | .little => i
  | .big => n - 1 - i

theorem toNat_wordOfBytes_ofFn (endian : Endian) {n : Nat} (h : n ≤ 8) (bytes : Fin n → UInt8) :
    (wordOfBytes endian (List.ofFn bytes)).toNat =
      ∑ i : Fin n, (bytes i).toNat * 256 ^ endian.place n i := by
  cases endian with
  | little => exact toNat_wordOfBytesLE_ofFn h bytes
  | big =>
      rw [wordOfBytes, reverse_ofFn, toNat_wordOfBytesLE_ofFn h, ← Equiv.sum_comp Fin.revPerm]
      apply Finset.sum_congr rfl
      intro i _
      rw [Fin.revPerm_apply, Fin.rev_rev, Fin.val_rev, Endian.place]
      congr 2
      omega

theorem toNat_lane (word : UInt64) {k : Nat} (hk : k < 8) :
    (lane word k).toNat = word.toNat / 256 ^ k % 256 := by
  have hpow : 256 ^ k = 2 ^ (8 * k) := by rw [Nat.pow_mul]
  have hshift : (laneShift k).toNat % 64 = 8 * k := by
    rw [toNat_laneShift hk]
    omega
  rw [lane, UInt64.toNat_toUInt8, UInt64.toNat_shiftRight, hshift, Nat.shiftRight_eq_div_pow, hpow]

theorem lane_wordOfBytesLE {bytes : List UInt8} (h : bytes.length ≤ 8) {k : Nat}
    (hk : k < bytes.length) : lane (wordOfBytesLE bytes) k = bytes[k] := by
  apply UInt8.toNat_inj.mp
  rw [toNat_lane _ (by omega)]
  induction bytes generalizing k with
  | nil => exact absurd hk (Nat.not_lt_zero k)
  | cons byte rest ih =>
      rw [List.length_cons] at h hk
      have hbyte := byte.toNat_lt
      rw [toNat_wordOfBytesLE_cons byte (by omega) (toNat_wordOfBytesLE_lt (by omega))]
      cases k with
      | zero =>
          rw [List.getElem_cons_zero]
          omega
      | succ k =>
          have hdigits : (byte.toNat + 256 * (wordOfBytesLE rest).toNat) / 256 =
              (wordOfBytesLE rest).toNat := by omega
          rw [List.getElem_cons_succ, ← ih (by omega) (by omega), Nat.pow_succ',
            ← Nat.div_div_eq_div_mul, hdigits]

/-- Each byte of a word is in the lane that the byte order gives it. -/
theorem lane_wordOfBytes (endian : Endian) {n : Nat} (h : n ≤ 8) (bytes : Fin n → UInt8)
    (i : Fin n) : lane (wordOfBytes endian (List.ofFn bytes)) (endian.place n i) = bytes i := by
  have hi := i.isLt
  have hlength : ∀ bytes : Fin n → UInt8, (List.ofFn bytes).length = n :=
    fun _ => List.length_ofFn
  cases endian with
  | little =>
      rw [wordOfBytes, Endian.place, lane_wordOfBytesLE (by rwa [hlength]) (by rwa [hlength]),
        List.getElem_ofFn]
  | big =>
      have hplace : Endian.place .big n i = i.rev := by
        rw [Endian.place, Fin.val_rev]
        omega
      rw [wordOfBytes, hplace, reverse_ofFn,
        lane_wordOfBytesLE (by rwa [hlength]) (by rw [hlength]; exact i.rev.isLt),
        List.getElem_ofFn]
      exact congrArg bytes (Fin.rev_rev i)

theorem Arch.laneOf_eq (arch : Arch) (addr : UInt64) :
    arch.laneOf addr = arch.endian.place arch.addressSize (addr.toNat % arch.addressSize) := by
  unfold laneOf Endian.place
  cases arch.endian <;> rfl

/-! ## Words of a memory -/

theorem mapM_ofFn {α β : Type} {n : Nat} {f : α → Option β} {a : Fin n → α} {b : Fin n → β}
    (h : ∀ i, f (a i) = some (b i)) : (List.ofFn a).mapM f = some (List.ofFn b) := by
  induction n with
  | zero => rfl
  | succ n ih =>
      rw [List.ofFn_succ, List.ofFn_succ, List.mapM_cons, h 0, ih fun i => h i.succ]
      rfl

theorem mapM_eq_none {α β : Type} {f : α → Option β} {l : List α} {a : α} (ha : a ∈ l)
    (h : f a = none) : l.mapM f = none := by
  induction l with
  | nil => exact absurd ha List.not_mem_nil
  | cons first rest ih =>
      rw [List.mapM_cons]
      rcases List.mem_cons.mp ha with rfl | hrest
      · rw [h]
        rfl
      · rw [ih hrest]
        cases f first <;> rfl

namespace Image

variable {arch : Arch} {byteAt : UInt64 → Option UInt8} {addr : UInt64}

theorem byteAddresses_eq {n : Nat} (h : addr.toNat + n ≤ 2 ^ 64) :
    byteAddresses addr n = some (List.ofFn fun i : Fin n => addr + UInt64.ofNat i) := by
  have hfits : addr.toNat + n ≤ UInt64.size := h
  rw [byteAddresses, if_pos hfits, List.ofFn_eq_map, ← List.map_coe_finRange_eq_range, List.map_map]
  rfl

theorem wordOfMemory_eq_ok (hroom : addr.toNat + arch.addressSize ≤ 2 ^ 64)
    {bytes : Fin arch.addressSize → UInt8}
    (h : ∀ i : Fin arch.addressSize, byteAt (addr + UInt64.ofNat i) = some (bytes i)) :
    wordOfMemory arch byteAt addr = .ok (wordOfBytes arch.endian (List.ofFn bytes)) := by
  rw [wordOfMemory, byteAddresses_eq hroom, Option.bind_some, mapM_ofFn h]

theorem wordOfMemory_eq_error (hroom : addr.toNat + arch.addressSize ≤ 2 ^ 64) {k : Nat}
    (hk : k < arch.addressSize) (h : byteAt (addr + UInt64.ofNat k) = none) :
    wordOfMemory arch byteAt addr = .error (.unreadable addr) := by
  have hmem : addr + UInt64.ofNat k ∈
      List.ofFn fun i : Fin arch.addressSize => addr + UInt64.ofNat i :=
    List.mem_ofFn.mpr ⟨⟨k, hk⟩, rfl⟩
  rw [wordOfMemory, byteAddresses_eq hroom, Option.bind_some, mapM_eq_none hmem h]

/-- All bytes of the word that holds an address are mapped. -/
def WordMapped (arch : Arch) (byteAt : UInt64 → Option UInt8) (addr : UInt64) : Prop :=
  ∀ k < arch.addressSize, (byteAt (alignDown addr arch.wordSize + UInt64.ofNat k)).isSome

/-- Words of four or eight bytes, one behind the other, end with the last address. -/
theorem toNat_alignDown_room (hsize : arch.addressSize = 4 ∨ arch.addressSize = 8)
    (addr : UInt64) :
    (alignDown addr arch.wordSize).toNat = addr.toNat - addr.toNat % arch.addressSize ∧
      (alignDown addr arch.wordSize).toNat + arch.addressSize ≤ 2 ^ 64 := by
  have hlt := addr.toNat_lt
  have haligned := toNat_alignDown addr arch.wordSize
  rw [Arch.toNat_wordSize_of_le (by omega)] at haligned
  rw [haligned]
  rcases hsize with hsize | hsize <;> rw [hsize] <;> omega

theorem alignDown_add_index (hsize : arch.addressSize = 4 ∨ arch.addressSize = 8)
    (addr : UInt64) :
    alignDown addr arch.wordSize + UInt64.ofNat (addr.toNat % arch.addressSize) = addr := by
  obtain ⟨haligned, hroom⟩ := toNat_alignDown_room hsize addr
  have hindex := Nat.mod_lt addr.toNat (show 0 < arch.addressSize by omega)
  have hbelow := Nat.mod_le addr.toNat arch.addressSize
  apply UInt64.toNat_inj.mp
  rw [Target.toNat_add_ofNat (by omega), haligned]
  omega

theorem WordMapped.exists_byte (hsize : arch.addressSize = 4 ∨ arch.addressSize = 8)
    (h : WordMapped arch byteAt addr) : ∃ byte, byteAt addr = some byte := by
  have hthere := h _ (Nat.mod_lt addr.toNat (show 0 < arch.addressSize by omega))
  rw [alignDown_add_index hsize] at hthere
  exact Option.isSome_iff_exists.mp hthere

end Image

namespace Target

open Image

variable {target : Target} {byteAt : UInt64 → Option UInt8} {addr pos : UInt64}

/-- The words of the target are made of the bytes of a memory. -/
def MadeOf (target : Target) (byteAt : UInt64 → Option UInt8) : Prop :=
  ∀ addr, target.loadWord addr = wordOfMemory target.arch byteAt addr

section MadeOf

variable (hmade : target.MadeOf byteAt)
  (hsize : target.arch.addressSize = 4 ∨ target.arch.addressSize = 8)

include hmade hsize

theorem MadeOf.readByte_eq_ok (hmapped : WordMapped target.arch byteAt addr) {byte : UInt8}
    (hbyte : byteAt addr = some byte) : target.readByte addr = .ok byte := by
  obtain ⟨-, hroom⟩ := toNat_alignDown_room hsize addr
  choose bytes hbytes using fun i : Fin target.arch.addressSize =>
    Option.isSome_iff_exists.mp (hmapped i i.isLt)
  have hword := (hmade _).trans (wordOfMemory_eq_ok hroom hbytes)
  let index : Fin target.arch.addressSize :=
    ⟨addr.toNat % target.arch.addressSize, Nat.mod_lt _ (by omega)⟩
  have haddr : alignDown addr target.arch.wordSize + UInt64.ofNat index = addr :=
    alignDown_add_index hsize addr
  have hthere : bytes index = byte := by
    have hread := hbytes index
    rw [haddr, hbyte] at hread
    exact (Option.some.inj hread).symm
  rw [readByte_of_loadWord (by omega) (by omega) hword, Arch.laneOf_eq, ← hthere,
    ← lane_wordOfBytes target.arch.endian (by omega) bytes index]

theorem MadeOf.readByte_eq_error (hunmapped : ¬WordMapped target.arch byteAt addr) :
    target.readByte addr = .error (.unreadable (alignDown addr target.arch.wordSize)) := by
  obtain ⟨-, hroom⟩ := toNat_alignDown_room hsize addr
  unfold WordMapped at hunmapped
  push Not at hunmapped
  obtain ⟨k, hk, hnone⟩ := hunmapped
  have hload := (hmade _).trans (wordOfMemory_eq_error hroom hk (by simpa using hnone))
  unfold readByte readWord
  simp only [hload, error_bind]

end MadeOf

theorem holds_ofFn {n : Nat} {bytes : Fin n → UInt8}
    (h : ∀ i : Fin n, target.readByte (pos + UInt64.ofNat i) = .ok (bytes i)) :
    target.Holds pos (List.ofFn bytes) := by
  induction n generalizing pos with
  | zero => exact trivial
  | succ n ih =>
      rw [List.ofFn_succ]
      have hfirst := h 0
      refine ⟨by simpa using hfirst, ih fun i => ?_⟩
      have hnext := h i.succ
      rwa [Fin.val_succ, ← add_one_add_ofNat] at hnext

/-- Reading bytes one after the other fails as the first does that fails. -/
theorem readBytes_eq_error {n i : Nat} (hi : i < n) {e : UnwindError}
    (hbefore : ∀ j < i, ∃ byte, target.readByte (pos + UInt64.ofNat j) = .ok byte)
    (h : target.readByte (pos + UInt64.ofNat i) = .error e) :
    target.readBytes pos n = .error e := by
  induction i generalizing pos n with
  | zero =>
      obtain ⟨n, rfl⟩ := Nat.exists_eq_succ_of_ne_zero (Nat.ne_of_gt hi)
      have hfirst : target.readByte pos = .error e := by simpa using h
      rw [readBytes, hfirst, error_bind]
  | succ i ih =>
      obtain ⟨n, rfl⟩ := Nat.exists_eq_succ_of_ne_zero (Nat.ne_of_gt (Nat.zero_lt_of_lt hi))
      obtain ⟨byte, hbyte⟩ := hbefore 0 (Nat.zero_lt_succ i)
      have hfirst : target.readByte pos = .ok byte := by simpa using hbyte
      have hrest : target.readBytes (pos + 1) n = .error e := ih (Nat.lt_of_succ_lt_succ hi)
        (fun j hj => by simpa only [add_one_add_ofNat] using hbefore (j + 1) (Nat.succ_lt_succ hj))
        (by simpa only [add_one_add_ofNat] using h)
      rw [readBytes, hfirst, ok_bind, hrest, error_bind]

theorem readUInt_eq_error {n : Nat} (hroom : pos.toNat + n < 2 ^ 64) {e : UnwindError}
    (h : target.readBytes pos n = .error e) : target.readUInt n pos = .error e pos := by
  unfold readUInt
  simp only [Action.get_bind_apply, advance_eq_ok hroom, h, Action.lift_ok_bind_apply,
    Action.lift_error_bind_apply]

/-- A number is read as the bytes at its addresses spell it, and goes on behind
them, if the words that hold them are mapped; one that fills a word is then the
word at its address.  Otherwise nothing is read, and the error names the first
word that is not mapped. -/
theorem readUInt_of_memory (hmade : target.MadeOf byteAt)
    (hsize : target.arch.addressSize = 4 ∨ target.arch.addressSize = 8) {n : Nat} (hn : n ≤ 8)
    (hroom : pos.toNat + n < 2 ^ 64) :
    ((∀ i < n, WordMapped target.arch byteAt (pos + UInt64.ofNat i)) →
      ∃ (bytes : Fin n → UInt8) (value : UInt64),
        (∀ i : Fin n, byteAt (pos + UInt64.ofNat i) = some (bytes i)) ∧
        value.toNat = ∑ i : Fin n, (bytes i).toNat * 256 ^ target.arch.endian.place n i ∧
        target.readUInt n pos = .ok value (pos + UInt64.ofNat n) ∧
        (n = target.arch.addressSize → target.readWord pos = .ok value)) ∧
    ((¬∀ i < n, WordMapped target.arch byteAt (pos + UInt64.ofNat i)) →
      ∃ i < n, (∀ j < i, WordMapped target.arch byteAt (pos + UInt64.ofNat j)) ∧
        ¬WordMapped target.arch byteAt (pos + UInt64.ofNat i) ∧
        target.readUInt n pos =
          .error (.unreadable (alignDown (pos + UInt64.ofNat i) target.arch.wordSize)) pos) := by
  refine ⟨fun hmapped => ?_, fun hunmapped => ?_⟩
  · choose bytes hbytes using fun i : Fin n =>
      WordMapped.exists_byte hsize (hmapped i i.isLt)
    have hholds := holds_ofFn fun i => hmade.readByte_eq_ok hsize (hmapped i i.isLt) (hbytes i)
    have hread := reads_readUInt (List.ofFn bytes) hholds (by rwa [List.length_ofFn])
    rw [List.length_ofFn] at hread
    refine ⟨bytes, _, hbytes, toNat_wordOfBytes_ofFn _ hn bytes, hread, ?_⟩
    rintro rfl
    have hword := (hmade pos).trans (wordOfMemory_eq_ok hroom.le hbytes)
    have hmask := wordOfBytes_le_wordMask target.arch target.arch.endian
      (List.length_ofFn (f := bytes))
    rw [readWord, hword, ok_bind, Arch.and_wordMask (UInt64.le_iff_toNat_le.mp hmask)]
    rfl
  · have hsome : ∃ i, i < n ∧ ¬WordMapped target.arch byteAt (pos + UInt64.ofNat i) := by
      push Not at hunmapped
      exact hunmapped
    classical
    obtain ⟨hi, hnot⟩ := Nat.find_spec hsome
    have hbefore : ∀ j < Nat.find hsome, WordMapped target.arch byteAt (pos + UInt64.ofNat j) := by
      intro j hj
      by_contra hnone
      exact Nat.find_min hsome hj ⟨hj.trans hi, hnone⟩
    refine ⟨Nat.find hsome, hi, hbefore, hnot, readUInt_eq_error hroom ?_⟩
    refine readBytes_eq_error hi (fun j hj => ?_) (hmade.readByte_eq_error hsize hnot)
    obtain ⟨byte, hbyte⟩ := WordMapped.exists_byte hsize (hbefore j hj)
    exact ⟨byte, hmade.readByte_eq_ok hsize (hbefore j hj) hbyte⟩

/-- Three words of memory, each byte the low byte of its address. -/
def numberedBytes (addr : UInt64) : Option UInt8 :=
  if 0x1000 ≤ addr ∧ addr < 0x100c then
    some addr.toUInt8
  else
    none

def numberedTarget : Target where
  arch := { Arch.x86 with endian := .big }
  loadWord := wordOfMemory { Arch.x86 with endian := .big } numberedBytes
  loadReg reg := .error (.badRegister (UInt64.ofNat reg))
  loadFpReg reg := .error (.badRegister (UInt64.ofNat reg))

/-- Seven bytes out of three words, and four that run past the last of them. -/
theorem readUInt_of_memory_numbered :
    numberedTarget.MadeOf numberedBytes ∧
      numberedTarget.readUInt 7 0x1003 = .ok 0x03040506070809 0x100a ∧
      numberedTarget.readUInt 4 0x100a = .error (.unreadable 0x100c) 0x100a := by
  have hmade : numberedTarget.MadeOf numberedBytes := fun _ => rfl
  refine ⟨hmade, ?_, ?_⟩
  · have hmapped : ∀ i < 7, WordMapped numberedTarget.arch numberedBytes
        (0x1003 + UInt64.ofNat i) := by
      unfold WordMapped
      decide
    obtain ⟨bytes, value, hbytes, hvalue, hread, -⟩ :=
      (readUInt_of_memory hmade (Or.inl rfl) (by decide) (by decide)).1 hmapped
    have hthere : bytes = ![3, 4, 5, 6, 7, 8, 9] := by
      funext i
      apply Option.some.inj
      rw [← hbytes i]
      fin_cases i <;> rfl
    have hnumber : value = 0x03040506070809 := by
      apply UInt64.toNat_inj.mp
      rw [hvalue, hthere]
      rfl
    rw [hread, hnumber]
    rfl
  · have hunmapped : ¬∀ i < 4, WordMapped numberedTarget.arch numberedBytes
        (0x100a + UInt64.ofNat i) := by
      unfold WordMapped
      decide
    obtain ⟨i, hi, hbefore, hnot, hread⟩ :=
      (readUInt_of_memory hmade (Or.inl rfl) (by decide) (by decide)).2 hunmapped
    have hbehind : 2 ≤ i := by
      have hfirst : ∀ i < 2, WordMapped numberedTarget.arch numberedBytes
          (0x100a + UInt64.ofNat i) := by
        unfold WordMapped
        decide
      by_contra hbelow
      exact hnot (hfirst i (by omega))
    have hword : alignDown (0x100a + UInt64.ofNat i) numberedTarget.arch.wordSize = 0x100c := by
      interval_cases i <;> rfl
    rw [hread, hword]

end Target
end StackWalk
