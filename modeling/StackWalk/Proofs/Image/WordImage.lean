import Mathlib.Tactic
import StackWalk.Image.WordImage
import StackWalk.Proofs.Scan
import StackWalk.Proofs.Word

/-!
# The bytes of an image kept in words

Each byte has a lane of eight bits in the word that holds its address, and no
two addresses share a lane of one word.  Writing a byte changes its own lane
only, so the image is a memory of bytes, and bytes written one after the other
are read back from their addresses.
-/

namespace StackWalk

/-! ## The lanes of a word -/

def laneShift (k : Nat) : UInt64 :=
  UInt64.ofNat (8 * k)

def lane (word : UInt64) (k : Nat) : UInt8 :=
  (word >>> laneShift k).toUInt8

def putLane (word : UInt64) (k : Nat) (byte : UInt8) : UInt64 :=
  (word &&& ~~~(0xff <<< laneShift k)) ||| (byte.toUInt64 <<< laneShift k)

theorem toNat_laneShift {k : Nat} (hk : k < 8) : (laneShift k).toNat = 8 * k := by
  apply UInt64.toNat_ofNat_of_lt'
  change 8 * k < 2 ^ 64
  omega

theorem testBit_byte (byte : UInt8) {i : Nat} (hi : ¬i < 8) : byte.toNat.testBit i = false := by
  have hpow : 2 ^ 8 ≤ 2 ^ i := Nat.pow_le_pow_right (by decide) (by omega)
  exact Nat.testBit_lt_two_pow (lt_of_lt_of_le byte.toNat_lt hpow)

theorem byte_ext {first second : UInt8}
    (h : ∀ i < 8, first.toNat.testBit i = second.toNat.testBit i) : first = second := by
  apply UInt8.toNat_inj.mp
  apply Nat.eq_of_testBit_eq
  intro i
  by_cases hi : i < 8
  · exact h i hi
  · rw [testBit_byte first hi, testBit_byte second hi]

theorem testBit_lane (word : UInt64) {k i : Nat} (hk : k < 8) (hi : i < 8) :
    (lane word k).toNat.testBit i = word.toNat.testBit (8 * k + i) := by
  have hshift := toNat_laneShift hk
  simp only [lane, UInt64.toNat_toUInt8, UInt64.toNat_shiftRight, hshift,
    Nat.testBit_mod_two_pow, hi, Nat.testBit_shiftRight]
  rw [Nat.mod_eq_of_lt (by omega)]
  simp

theorem testBit_putLane (word : UInt64) (byte : UInt8) {k j : Nat} (hk : k < 8) (hj : j < 64) :
    (putLane word k byte).toNat.testBit j =
      if j / 8 = k then byte.toNat.testBit (j % 8) else word.toNat.testBit j := by
  have hshift : ((laneShift k).toBitVec % 64).toNat = 8 * k := by
    have hnat := toNat_laneShift hk
    rw [BitVec.toNat_umod]
    change (laneShift k).toNat % 64 = _
    omega
  have hones : ∀ i, (UInt64.toBitVec 0xff).getLsbD i = decide (i < 8) :=
    fun i => Nat.testBit_two_pow_sub_one 8 i
  have hbyte : ∀ i, byte.toUInt64.toBitVec.getLsbD i = byte.toNat.testBit i := by
    intro i
    change byte.toUInt64.toNat.testBit i = _
    rw [UInt8.toNat_toUInt64]
  have hword : word.toBitVec.getLsbD j = word.toNat.testBit j := rfl
  change BitVec.getLsbD (UInt64.toBitVec _) j = _
  simp only [putLane, UInt64.toBitVec_or, UInt64.toBitVec_and, UInt64.toBitVec_not,
    UInt64.toBitVec_shiftLeft, BitVec.getLsbD_or, BitVec.getLsbD_and, BitVec.getLsbD_not,
    BitVec.getLsbD_shiftLeft', hshift, hj, hones, hbyte, hword]
  by_cases hin : j / 8 = k
  · have hbelow : ¬j < 8 * k := by omega
    have hoffset : j - 8 * k = j % 8 := by omega
    have hsmall : j % 8 < 8 := by omega
    simp [hin, hbelow, hoffset, hsmall]
  · by_cases hbelow : j < 8 * k
    · simp [hin, hbelow]
    · have habove : ¬j - 8 * k < 8 := by omega
      simp [hin, habove, testBit_byte byte habove]

theorem lane_putLane (word : UInt64) (byte : UInt8) {k other : Nat} (hk : k < 8)
    (hother : other < 8) :
    lane (putLane word k byte) other = if other = k then byte else lane word other := by
  apply byte_ext
  intro i hi
  have hdiv : (8 * other + i) / 8 = other := by omega
  have hmod : (8 * other + i) % 8 = i := by omega
  rw [testBit_lane _ hother hi, testBit_putLane word byte hk (by omega), hdiv, hmod]
  split
  · rfl
  · rw [testBit_lane _ hother hi]

theorem lane_and_wordMask (arch : Arch) (word : UInt64) {k : Nat}
    (hk : k < min arch.addressSize 8) : lane (word &&& arch.wordMask) k = lane word k := by
  apply byte_ext
  intro i hi
  have hlt : 8 * k + i < arch.wordBits := by
    unfold Arch.wordBits
    omega
  rw [testBit_lane _ (by omega) hi, testBit_lane _ (by omega) hi, Arch.toNat_and_wordMask,
    Nat.testBit_mod_two_pow]
  simp [hlt]

/-! ## Where a byte is -/

theorem alignDown_alignDown (addr size : UInt64) :
    alignDown (alignDown addr size) size = alignDown addr size := by
  have haligned := toNat_alignDown addr size
  apply UInt64.toNat_inj.mp
  rw [toNat_alignDown, haligned, Nat.sub_mod_eq_zero_of_mod_eq (by simp), Nat.sub_zero]

namespace Arch

variable {arch : Arch}

/-- The lane of the byte at an address, in the word that holds it. -/
def laneOf (arch : Arch) (addr : UInt64) : Nat :=
  match arch.endian with
  | .little => addr.toNat % arch.addressSize
  | .big => arch.addressSize - 1 - addr.toNat % arch.addressSize

theorem toNat_wordSize_of_le (hle : arch.addressSize ≤ 8) :
    arch.wordSize.toNat = arch.addressSize := by
  apply UInt64.toNat_ofNat_of_lt'
  change arch.addressSize < 2 ^ 64
  omega

theorem toNat_sub_alignDown (hle : arch.addressSize ≤ 8) (addr : UInt64) :
    (addr - alignDown addr arch.wordSize).toNat = addr.toNat % arch.addressSize := by
  have hsize := toNat_wordSize_of_le hle
  have haligned := toNat_alignDown addr arch.wordSize
  have hmod := Nat.mod_le addr.toNat arch.addressSize
  rw [hsize] at haligned
  rw [UInt64.toNat_sub_of_le, haligned]
  · omega
  · rw [UInt64.le_iff_toNat_le]
    omega

variable (hpos : 0 < arch.addressSize) (hle : arch.addressSize ≤ 8)

include hpos hle

theorem laneOf_lt (addr : UInt64) : arch.laneOf addr < min arch.addressSize 8 := by
  have hmod := Nat.mod_lt addr.toNat hpos
  unfold laneOf
  cases arch.endian <;> dsimp only <;> omega

theorem byteShift_eq (addr : UInt64) :
    Target.byteShift arch.endian arch.wordSize (addr - alignDown addr arch.wordSize) =
      laneShift (arch.laneOf addr) := by
  have hindex := toNat_sub_alignDown hle addr
  have hsize := toNat_wordSize_of_le hle
  have hmod := Nat.mod_lt addr.toNat hpos
  have hlane := toNat_laneShift (lt_of_lt_of_le (laneOf_lt hpos hle addr) (min_le_right _ _))
  generalize addr - alignDown addr arch.wordSize = index at hindex
  apply UInt64.toNat_inj.mp
  rw [hlane]
  unfold Target.byteShift laneOf
  have height : (8 : UInt64).toNat = 8 := rfl
  have hone : (1 : UInt64).toNat = 1 := rfl
  cases arch.endian with
  | little =>
      dsimp only
      rw [UInt64.toNat_mul, hindex, height]
      omega
  | big =>
      dsimp only
      have hfirst : (arch.wordSize - 1).toNat = arch.addressSize - 1 := by
        rw [UInt64.toNat_sub_of_le _ _ (by rw [UInt64.le_iff_toNat_le]; omega), hsize, hone]
      have hsecond : (arch.wordSize - 1 - index).toNat =
          arch.addressSize - 1 - addr.toNat % arch.addressSize := by
        rw [UInt64.toNat_sub_of_le _ _ (by rw [UInt64.le_iff_toNat_le]; omega), hfirst, hindex]
      rw [UInt64.toNat_mul, hsecond, height]
      omega

theorem laneOf_ne {addr other : UInt64} (hne : other ≠ addr)
    (hsame : alignDown other arch.wordSize = alignDown addr arch.wordSize) :
    arch.laneOf other ≠ arch.laneOf addr := by
  have hsize := toNat_wordSize_of_le hle
  have haddr := toNat_alignDown addr arch.wordSize
  have hother := toNat_alignDown other arch.wordSize
  have hmod := Nat.mod_lt addr.toNat hpos
  have hmod' := Nat.mod_lt other.toNat hpos
  have hle := Nat.mod_le addr.toNat arch.addressSize
  have hle' := Nat.mod_le other.toNat arch.addressSize
  have hnat : other.toNat ≠ addr.toNat := fun h => hne (UInt64.toNat_inj.mp h)
  rw [hsize] at haddr hother
  rw [hsame] at hother
  unfold laneOf
  cases arch.endian <;> dsimp only <;> omega

end Arch

theorem Target.readByte_of_loadWord {target : Target} {addr word : UInt64}
    (hpos : 0 < target.arch.addressSize) (hle : target.arch.addressSize ≤ 8)
    (h : target.loadWord (alignDown addr target.arch.wordSize) = .ok word) :
    target.readByte addr = .ok (lane word (target.arch.laneOf addr)) := by
  unfold readByte readWord
  simp only [h, ok_bind, pure_eq_ok, Arch.byteShift_eq hpos hle]
  rw [← lane_and_wordMask target.arch word (Arch.laneOf_lt hpos hle addr)]
  rfl

/-! ## The image as a memory of bytes -/

namespace Image.WordImage

variable {arch : Arch} {image : WordImage} {addr other : UInt64} {byte : UInt8}

def byteAt (image : WordImage) (arch : Arch) (addr : UInt64) : Option UInt8 :=
  (image.words[alignDown addr arch.wordSize]?).map fun word => lane word (arch.laneOf addr)

variable (hpos : 0 < arch.addressSize) (hle : arch.addressSize ≤ 8)

include hpos hle

theorem readByte_of_byteAt (validate : Bool) (h : image.byteAt arch addr = some byte) :
    ((space arch).target image () validate).readByte addr = .ok byte := by
  obtain ⟨word, hword, hlane⟩ := Option.map_eq_some_iff.mp h
  have hread : image.loadWord arch (alignDown addr arch.wordSize) = .ok word := by
    simp only [loadWord, readWord, alignDown_alignDown, hword]
  have hload : ((space arch).target image () validate).loadWord (alignDown addr arch.wordSize) =
      .ok word := by
    cases validate with
    | false => exact hread
    | true =>
        change (image.loadWord arch (alignDown addr arch.wordSize) >>= fun _ => pure ()) >>=
          (fun _ => image.loadWord arch (alignDown addr arch.wordSize)) = .ok word
        rw [hread]
        rfl
  rw [← hlane]
  exact Target.readByte_of_loadWord hpos hle hload

theorem words_writeByte : (image.writeByte arch addr byte).words =
    image.words.insert (alignDown addr arch.wordSize)
      (putLane (image.words.getD (alignDown addr arch.wordSize) 0) (arch.laneOf addr) byte) := by
  unfold writeByte
  simp only [Arch.byteShift_eq hpos hle]
  rfl

theorem byteAt_writeByte_self : (image.writeByte arch addr byte).byteAt arch addr = some byte := by
  have hlane : arch.laneOf addr < 8 :=
    lt_of_lt_of_le (Arch.laneOf_lt hpos hle addr) (min_le_right _ _)
  simp [byteAt, words_writeByte hpos hle, lane_putLane _ byte hlane hlane]

theorem byteAt_writeByte_ne (hne : other ≠ addr) {there : UInt8}
    (h : image.byteAt arch other = some there) :
    (image.writeByte arch addr byte).byteAt arch other = some there := by
  obtain ⟨word, hword, hlane⟩ := Option.map_eq_some_iff.mp h
  unfold byteAt
  rw [words_writeByte hpos hle, Std.HashMap.getElem?_insert]
  by_cases hsame : alignDown other arch.wordSize = alignDown addr arch.wordSize
  · have hdiffer := Arch.laneOf_ne hpos hle hne hsame
    have haddr : arch.laneOf addr < 8 :=
      lt_of_lt_of_le (Arch.laneOf_lt hpos hle addr) (min_le_right _ _)
    have hother : arch.laneOf other < 8 :=
      lt_of_lt_of_le (Arch.laneOf_lt hpos hle other) (min_le_right _ _)
    rw [hsame] at hword
    simp [hsame, Std.HashMap.getD_eq_getD_getElem?, hword, lane_putLane _ byte haddr hother,
      hdiffer, hlane]
  · simp [Ne.symm hsame, hword, hlane]

theorem byteAt_writeBytes_of_ne (bytes : List UInt8)
    (hne : ∀ i < bytes.length, other ≠ addr + UInt64.ofNat i) {there : UInt8}
    (h : image.byteAt arch other = some there) :
    (image.writeBytes arch addr bytes).byteAt arch other = some there := by
  induction bytes generalizing image addr with
  | nil => exact h
  | cons byte rest ih =>
      have hhead : other ≠ addr := by
        simpa using hne 0 (by simp)
      have htail : ∀ i < rest.length, other ≠ addr + 1 + UInt64.ofNat i := by
        intro i hi
        have hnext := hne (i + 1) (by simpa using hi)
        rwa [← Target.add_one_add_ofNat] at hnext
      exact ih htail (byteAt_writeByte_ne hpos hle hhead h)

theorem holds_writeBytes (validate : Bool) {bytes : List UInt8} (hlen : bytes.length ≤ 2 ^ 64) :
    ((space arch).target (image.writeBytes arch addr bytes) () validate).Holds addr bytes := by
  induction bytes generalizing image addr with
  | nil => trivial
  | cons byte rest ih =>
      rw [List.length_cons] at hlen
      -- Fewer than all addresses are written, so the first is not met again.
      have hbehind : ∀ i < rest.length, addr ≠ addr + 1 + UInt64.ofNat i := by
        intro i hi hback
        have hsum : addr + 0 = addr + UInt64.ofNat (i + 1) := by
          rw [← Target.add_one_add_ofNat, UInt64.add_zero]
          exact hback
        have hzero := congrArg UInt64.toNat ((UInt64.add_right_inj addr).mp hsum)
        rw [UInt64.toNat_zero, UInt64.toNat_ofNat_of_lt' (show i + 1 < 2 ^ 64 by omega)] at hzero
        omega
      have hfirst : ((image.writeByte arch addr byte).writeBytes arch (addr + 1) rest).byteAt
          arch addr = some byte :=
        byteAt_writeBytes_of_ne hpos hle rest hbehind (byteAt_writeByte_self hpos hle)
      exact ⟨readByte_of_byteAt hpos hle validate hfirst, ih (by omega)⟩

omit hpos hle in
theorem writeBytes_append (first second : List UInt8) :
    image.writeBytes arch addr (first ++ second) =
      (image.writeBytes arch addr first).writeBytes arch
        (addr + UInt64.ofNat first.length) second := by
  induction first generalizing image addr with
  | nil => simp [writeBytes]
  | cons byte rest ih =>
      rw [List.cons_append, writeBytes, ih, List.length_cons, Target.add_one_add_ofNat]
      rfl

end Image.WordImage
end StackWalk
