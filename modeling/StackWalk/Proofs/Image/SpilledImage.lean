import StackWalk.Proofs.Image.Overlay

/-!
# Floating-point images in memory

An image of several words has its low word where the low bytes of a word are:
first with the low byte first, and last with the high byte first.  So its bytes
are those of one long number in the byte order of the target, and what is
written to it is read back.
-/

namespace StackWalk

/-! ## Images as words and bytes -/

/-- The low bytes of an image in the given order. -/
def bytesOfImage (endian : Endian) (size : Nat) (image : FpImage) : List UInt8 :=
  match endian with
  | .little => digits image.toNat size
  | .big => (digits image.toNat size).reverse

theorem length_bytesOfImage (endian : Endian) (size : Nat) (image : FpImage) :
    (bytesOfImage endian size image).length = size := by
  cases endian <;> simp [bytesOfImage, length_digits]

theorem Endian.place_lt (endian : Endian) {n i : Nat} (hi : i < n) : endian.place n i < n := by
  unfold place
  cases endian <;> dsimp only <;> omega

theorem getElem?_bytesOfImage (endian : Endian) {size : Nat} (image : FpImage) {i : Nat}
    (hi : i < size) :
    (bytesOfImage endian size image)[i]? =
      some (UInt8.ofNat (image.toNat / 256 ^ endian.place size i)) := by
  cases endian <;> simp [bytesOfImage, digits, Endian.place, hi]

namespace Arch

variable {arch : Arch}

/-- A word of an image, counted from its low end. -/
def partOfImage (arch : Arch) (image : FpImage) (i : Nat) : UInt64 :=
  UInt64.ofBitVec ((image >>> (8 * arch.addressSize * i)).setWidth 64)

theorem toNat_partOfImage (arch : Arch) (image : FpImage) (i : Nat) :
    (arch.partOfImage image i).toNat =
      image.toNat / 256 ^ (arch.addressSize * i) % 256 ^ 8 := by
  rw [partOfImage, UInt64.toNat_ofBitVec, BitVec.toNat_setWidth, BitVec.toNat_ushiftRight,
    Nat.shiftRight_eq_div_pow, Nat.mul_assoc, Nat.pow_mul]
  rfl

theorem bytesOfWordLE_partOfImage (hsize : arch.addressSize ≤ 8) (image : FpImage) (i : Nat) :
    bytesOfWordLE arch.addressSize (arch.partOfImage image i) =
      digits (image.toNat / 256 ^ (arch.addressSize * i)) arch.addressSize := by
  rw [bytesOfWordLE_eq_digits, toNat_partOfImage, digits_mod _ hsize]

theorem flatMap_wordsOfImage (hsize : arch.addressSize ≤ 8) (image : FpImage) :
    (arch.wordsOfImage image).flatMap (bytesOfWord arch.endian arch.addressSize) =
      bytesOfImage arch.endian (arch.imageWords * arch.addressSize) image := by
  have hleast : ((List.range arch.imageWords).map (arch.partOfImage image)).flatMap
      (bytesOfWordLE arch.addressSize) =
        digits image.toNat (arch.imageWords * arch.addressSize) := by
    rw [List.flatMap_map, ← flatMap_digits]
    simp only [bytesOfWordLE_partOfImage hsize]
  unfold wordsOfImage bytesOfImage
  cases arch.endian with
  | little => exact hleast
  | big =>
      rw [← hleast, List.reverse_flatMap]
      rfl

/-- The image that has the given words, the low end first. -/
def joinParts (arch : Arch) (words : List UInt64) : FpImage :=
  words.foldr
    (fun word image => (image <<< (8 * arch.addressSize)) ||| word.toBitVec.setWidth 128) 0

theorem toNat_joinParts_cons {word : UInt64} {rest : List UInt64}
    (hword : word.toNat < 256 ^ arch.addressSize)
    (hfits : 256 ^ arch.addressSize * (arch.joinParts rest).toNat < 2 ^ 128) :
    (arch.joinParts (word :: rest)).toNat =
      word.toNat + 256 ^ arch.addressSize * (arch.joinParts rest).toNat := by
  have hpow : 256 ^ arch.addressSize = 2 ^ (8 * arch.addressSize) := by rw [Nat.pow_mul]
  have hwide : word.toNat % 2 ^ 128 = word.toNat :=
    Nat.mod_eq_of_lt (word.toNat_lt.trans (by norm_num))
  have hcons : arch.joinParts (word :: rest) =
      (arch.joinParts rest <<< (8 * arch.addressSize)) ||| word.toBitVec.setWidth 128 := rfl
  rw [hpow] at hword hfits ⊢
  rw [hcons, BitVec.toNat_or, BitVec.toNat_shiftLeft, BitVec.toNat_setWidth,
    UInt64.toNat_toBitVec, hwide, Nat.shiftLeft_eq, Nat.mul_comm _ (2 ^ _),
    Nat.mod_eq_of_lt hfits, ← Nat.two_pow_add_eq_or_of_lt hword, Nat.add_comm]

theorem toNat_joinParts (hsize : arch.addressSize ≤ 8) (count : Nat) (image : FpImage)
    (hcount : arch.addressSize * count ≤ 16) :
    (arch.joinParts
      ((List.range count).map fun i => arch.partOfImage image i &&& arch.wordMask)).toNat =
        image.toNat % 256 ^ (arch.addressSize * count) := by
  induction count generalizing image with
  | zero => simp [joinParts, Nat.mod_one]
  | succ count ih =>
      rw [Nat.mul_succ] at hcount
      have hpow : 0 < 256 ^ arch.addressSize := Nat.pow_pos (by decide)
      have hfirst : (arch.partOfImage image 0 &&& arch.wordMask).toNat =
          image.toNat % 256 ^ arch.addressSize := by
        rw [toNat_and_wordMask_of_le hsize, toNat_partOfImage, Nat.mul_zero, Nat.pow_zero,
          Nat.div_one, Nat.mod_mod_of_dvd _ (pow_dvd_pow 256 hsize)]
      -- The parts behind the first are those of what lies above it.
      have habove : ∀ i, arch.partOfImage image (i + 1) =
          arch.partOfImage (image >>> (8 * arch.addressSize)) i := by
        intro i
        rw [partOfImage, partOfImage, ← BitVec.shiftRight_add, Nat.mul_succ, Nat.add_comm]
      have hrest := ih (image >>> (8 * arch.addressSize)) (by omega)
      rw [BitVec.toNat_ushiftRight, Nat.shiftRight_eq_div_pow, Nat.pow_mul] at hrest
      have hfits : 256 ^ arch.addressSize *
          (image.toNat / 256 ^ arch.addressSize % 256 ^ (arch.addressSize * count)) < 2 ^ 128 :=
        calc _ < 256 ^ arch.addressSize * 256 ^ (arch.addressSize * count) :=
              Nat.mul_lt_mul_of_pos_left (Nat.mod_lt _ (Nat.pow_pos (by decide))) hpow
          _ = 256 ^ (arch.addressSize + arch.addressSize * count) := (Nat.pow_add ..).symm
          _ ≤ 256 ^ 16 := Nat.pow_le_pow_right (by decide) (by omega)
          _ = 2 ^ 128 := by norm_num
      rw [List.range_succ_eq_map, List.map_cons, List.map_map]
      simp only [Function.comp_def, Nat.succ_eq_add_one, habove]
      rw [toNat_joinParts_cons, hfirst, hrest, Nat.mul_succ, Nat.add_comm (_ * _), Nat.pow_add,
        Nat.mod_mul]
      · rw [hfirst]
        exact Nat.mod_lt _ hpow
      · rw [hrest]
        exact hfits

theorem imageOfWords_wordsOfImage (hsize : arch.addressSize ≤ 8)
    (hwords : arch.addressSize * arch.imageWords ≤ 16) (image : FpImage) :
    arch.imageOfWords ((arch.wordsOfImage image).map (· &&& arch.wordMask)) =
      BitVec.ofNat 128 (image.toNat % 256 ^ (arch.addressSize * arch.imageWords)) := by
  have hlt : image.toNat % 256 ^ (arch.addressSize * arch.imageWords) < 2 ^ 128 :=
    lt_of_le_of_lt (Nat.mod_le _ _) image.isLt
  have hjoin : arch.imageOfWords ((arch.wordsOfImage image).map (· &&& arch.wordMask)) =
      arch.joinParts ((List.range arch.imageWords).map fun i =>
        arch.partOfImage image i &&& arch.wordMask) := by
    unfold imageOfWords wordsOfImage
    cases arch.endian with
    | little =>
        rw [List.map_map]
        rfl
    | big =>
        rw [List.map_reverse, List.reverse_reverse, List.map_map]
        rfl
  apply BitVec.eq_of_toNat_eq
  rw [hjoin, toNat_joinParts hsize _ _ hwords, BitVec.toNat_ofNat, Nat.mod_eq_of_lt hlt]

end Arch

/-! ## Images in memory -/

open Image

namespace Arch

variable {arch : Arch}

/-- An image fills whole words of four or eight bytes, and there is room for it in the
registers. -/
structure WholeImages (arch : Arch) : Prop where
  wordSize : arch.addressSize = 4 ∨ arch.addressSize = 8
  words : arch.addressSize ∣ arch.fpSize.toNat
  pos : 0 < arch.fpSize.toNat
  le : arch.fpSize.toNat ≤ 16

theorem WholeImages.addressSize_le (h : arch.WholeImages) : arch.addressSize ≤ 8 := by
  have hsize := h.wordSize
  omega

theorem WholeImages.imageWords_mul (h : arch.WholeImages) :
    arch.imageWords * arch.addressSize = arch.fpSize.toNat := by
  obtain ⟨count, hcount⟩ := h.words
  have hsize : 0 < arch.addressSize := by
    have := h.wordSize
    omega
  have hpos := h.pos
  rw [hcount] at hpos
  have hone : 1 ≤ count := Nat.pos_of_mul_pos_left hpos
  rw [imageWords, hcount, Nat.mul_div_cancel_left _ hsize, max_eq_left hone, Nat.mul_comm]

theorem imageAddresses_of_room {addr : UInt64} (h : arch.WholeImages)
    (hroom : addr.toNat + arch.fpSize.toNat ≤ 2 ^ 64) :
    arch.imageAddresses addr = .ok (arch.wordAddresses addr arch.imageWords) := by
  have hlength : UInt64.ofNat arch.imageWords * arch.wordSize =
      UInt64.ofNat arch.fpSize.toNat := by
    rw [wordSize, ← UInt64.ofNat_mul, h.imageWords_mul]
  have hpos := h.pos
  have hle := h.le
  have hlast : (UInt64.ofNat arch.fpSize.toNat - 1).toNat = arch.fpSize.toNat - 1 := by
    rw [UInt64.ofNat_toNat, UInt64.toNat_sub_of_le]
    · rfl
    · rw [UInt64.le_iff_toNat_le]
      exact hpos
  unfold imageAddresses
  dsimp only
  rw [hlength, checkedAdd_of_lt (by rw [hlast]; omega)]
  rfl

end Arch

/-- An image whose bytes stand in memory is read as the number they are the bytes of. -/
theorem Target.readFp_of_sees {target : Target} {byteAt : UInt64 → Option UInt8} {addr : UInt64}
    (harch : target.arch.WholeImages)
    (hroom : addr.toNat + target.arch.fpSize.toNat ≤ 2 ^ 64) {image : FpImage}
    (hsees : target.Sees (overlay byteAt addr
      (bytesOfImage target.arch.endian target.arch.fpSize.toNat image)))
    (reg : Column) (fp : Bool) :
    (Location.memory addr fp).readFp target reg =
      .ok (BitVec.ofNat 128 (image.toNat % 256 ^ target.arch.fpSize.toNat)) := by
  have hsize := harch.addressSize_le
  have hlength := target.arch.length_wordsOfImage image
  have hwords := harch.imageWords_mul
  have haddrs := Arch.imageAddresses_of_room harch hroom
  rw [← hwords, ← Arch.flatMap_wordsOfImage hsize] at hsees
  rw [← hwords, ← hlength] at hroom
  have hread := mapM_readWord (target.arch.wordsOfImage image) hsize hroom hsees
  rw [Nat.mul_comm] at hwords
  have himage := Arch.imageOfWords_wordsOfImage hsize (hwords.le.trans harch.le) image
  rw [hlength] at hread
  rw [hwords] at himage
  have hreadFp : (Location.memory addr fp).readFp target reg =
      (target.arch.imageAddresses addr >>= fun addrs =>
        addrs.mapM target.readWord >>= fun words => .ok (target.arch.imageOfWords words)) := rfl
  rw [hreadFp, haddrs, ok_bind, hread, ok_bind, himage]

section Spilled

variable {World Thread : Type} {space : AddressSpace World Thread}
  {byteAt : World → UInt64 → Option UInt8} {world : World} {thread : Thread} {validate : Bool}
  {addr : UInt64}

theorem AddressSpace.KeepsBytes.writeFp (h : space.KeepsBytes byteAt)
    (hprobe : validate = true → space.ProbesReadable) (harch : space.arch.WholeImages)
    (hmapped : Mapped (byteAt world) addr space.arch.fpSize.toNat) (image : FpImage)
    (reg : Column) (fp : Bool) :
    ∃ after,
      (Location.memory addr fp).writeFp space thread validate reg image world = .ok () after ∧
      byteAt after = overlay (byteAt world) addr
        (bytesOfImage space.arch.endian space.arch.fpSize.toNat image) := by
  have hsize := harch.addressSize_le
  have hlength := space.arch.length_wordsOfImage image
  have hwords := harch.imageWords_mul
  have haddrs := Arch.imageAddresses_of_room harch hmapped.1
  rw [← hwords, ← hlength] at hmapped
  obtain ⟨after, hwrite, hafter⟩ :=
    @KeepsBytes.writeWords _ _ _ _ world thread _ addr h hprobe hsize _ hmapped
  rw [Arch.flatMap_wordsOfImage hsize, hwords] at hafter
  rw [hlength] at hwrite
  refine ⟨after, ?_, hafter⟩
  simp only [Location.writeFp, haddrs, Action.lift_ok_bind_apply, hwrite]

/-- What is written to a spilled image is read there, as far as the image goes.  Its bytes
are those of the number in the byte order of the target, and all other bytes stay. -/
theorem Location.writeFp_readFp (hkeeps : space.KeepsBytes byteAt)
    (hprobe : validate = true → space.ProbesReadable) (harch : space.arch.WholeImages)
    (hmapped : Mapped (byteAt world) addr space.arch.fpSize.toNat) (thread : Thread)
    (image : FpImage) (reg : Column) (fp : Bool) :
    let size := space.arch.fpSize.toNat
    let kept := image.toNat % 2 ^ (8 * size)
    ∃ after,
      (Location.memory addr fp).writeFp space thread validate reg image world = .ok () after ∧
      (Location.memory addr fp).readFp (space.target after thread validate) reg =
        .ok (BitVec.ofNat 128 kept) ∧
      (∀ i < size, byteAt after (addr + UInt64.ofNat i) =
        some (UInt8.ofNat (kept / 256 ^ space.arch.endian.place size i))) ∧
      ∀ other, (∀ i < size, other ≠ addr + UInt64.ofNat i) →
        byteAt after other = byteAt world other := by
  intro size kept
  obtain ⟨after, hwrite, hafter⟩ :=
    @AddressSpace.KeepsBytes.writeFp _ _ _ _ _ thread _ _ hkeeps hprobe harch hmapped image reg fp
  have hkept : kept = image.toNat % 256 ^ size := by
    simp only [kept, Nat.pow_mul]
  have hlength := length_bytesOfImage space.arch.endian size image
  have hle := harch.le
  rw [hkept]
  refine ⟨after, hwrite, ?_, ?_, ?_⟩
  · have hsees : (space.target after thread validate).Sees (byteAt after) := hkeeps.sees hprobe
    rw [hafter] at hsees
    exact Target.readFp_of_sees harch hmapped.1 hsees reg fp
  · intro i hi
    rw [hafter, overlay_of_lt (by rwa [hlength]) (by rw [hlength]; omega)]
    rw [← List.getElem?_eq_getElem, getElem?_bytesOfImage _ _ hi,
      digit_mod _ (space.arch.endian.place_lt hi)]
  · intro other hother
    rw [← hlength] at hother
    rw [hafter, overlay_of_ne hother]

end Spilled

/-- Twelve bytes of memory at an odd address, for images of three words with the
highest byte first. -/
def oddConfig : ImageConfig where
  arch := { Arch.x86 with endian := .big, fpSize := 12 }

def oddImage : ByteImage where
  memory := ByteMemory.empty.fill 0x1001 (List.replicate 12 0)
  threads := #[]
  procs := []

theorem Location.writeFp_readFp_odd :
    oddConfig.space.arch.WholeImages ∧
      ∃ after,
        (Location.memory 0x1001 true).writeFp oddConfig.space 0 true 9
          0xaabbccdd0102030405060708090a0b0c oddImage = .ok () after ∧
        (Location.memory 0x1001 true).readFp (oddConfig.space.target after 0 true) 9 =
          .ok 0x0102030405060708090a0b0c ∧
        after.memory.byteAt 0x1001 = some 0x01 ∧ after.memory.byteAt 0x100c = some 0x0c ∧
        after.memory.byteAt 0x100d = none := by
  have hfilled : oddImage.memory.byteAt =
      overlay ByteMemory.empty.byteAt 0x1001 (List.replicate 12 0) :=
    ByteMemory.byteAt_fill _ (by simp)
  have hmapped : Mapped oddImage.memory.byteAt 0x1001 12 := by
    refine ⟨by decide, fun i hi => ?_⟩
    rw [hfilled, overlay_of_lt (by simpa using hi) (by simp)]
    rfl
  have hprobe : oddConfig.space.ProbesReadable := fun _ _ _ _ _ => rfl
  have harch : oddConfig.space.arch.WholeImages :=
    ⟨Or.inl rfl, by decide, by decide, by decide⟩
  have hkeeps := oddConfig.space_keepsBytes (by decide)
  obtain ⟨after, hwrite, hread, hbytes, hothers⟩ :=
    Location.writeFp_readFp hkeeps (fun _ => hprobe) harch hmapped 0
      0xaabbccdd0102030405060708090a0b0c 9 true
  refine ⟨harch, after, hwrite, ?_, hbytes 0 (by decide), hbytes 11 (by decide), ?_⟩
  · exact hread
  · rw [hothers 0x100d (by decide), hfilled, overlay_of_ne (by decide)]
    simp [ByteMemory.byteAt, ByteMemory.empty]

end StackWalk
