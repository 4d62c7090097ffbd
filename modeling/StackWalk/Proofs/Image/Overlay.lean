import StackWalk.Image.ByteImage
import StackWalk.Image.PagePair
import StackWalk.Proofs.Image.ByteMemory

/-!
# Words written to a memory of bytes

A word that is written lays its bytes over the memory and leaves the bytes
around it alone.  Words written one behind the other lay down their bytes in a
row, and are read back from there, wherever the first of them begins.
-/

namespace StackWalk

namespace Image

/-! ## Bytes laid over a memory -/

/-- The memory with other bytes from `addr` on. -/
def overlay (byteAt : UInt64 → Option UInt8) (addr : UInt64) (bytes : List UInt8)
    (other : UInt64) : Option UInt8 :=
  (bytes[(other - addr).toNat]?).or (byteAt other)

variable {byteAt : UInt64 → Option UInt8} {addr other : UInt64} {first second : List UInt8}

@[simp] theorem overlay_nil : overlay byteAt addr [] = byteAt := by
  funext other
  simp [overlay]

theorem overlay_append (h : first.length + second.length ≤ 2 ^ 64) :
    overlay (overlay byteAt addr first) (addr + UInt64.ofNat first.length) second =
      overlay byteAt addr (first ++ second) := by
  funext other
  have hback : other - (addr + UInt64.ofNat first.length) =
      other - addr - UInt64.ofNat first.length := by
    grind
  have hlt := (other - addr).toNat_lt
  by_cases hsecond : second = []
  · simp [hsecond, overlay]
  have hpos := List.length_pos_iff.mpr hsecond
  have hlength : (UInt64.ofNat first.length).toNat = first.length :=
    UInt64.toNat_ofNat_of_lt' (show first.length < 2 ^ 64 by omega)
  unfold overlay
  rw [hback, UInt64.toNat_sub, hlength]
  generalize (other - addr).toNat = offset at hlt
  rw [List.getElem?_append]
  by_cases hbelow : offset < first.length
  · have hround : 2 ^ 64 - first.length + offset < 2 ^ 64 := by omega
    have hnone : second.length ≤ 2 ^ 64 - first.length + offset := by omega
    rw [Nat.mod_eq_of_lt hround, List.getElem?_eq_none hnone, if_pos hbelow, Option.none_or]
  · have hround : (2 ^ 64 - first.length + offset) % 2 ^ 64 = offset - first.length := by omega
    rw [hround, if_neg hbelow, List.getElem?_eq_none (not_lt.mp hbelow), Option.none_or]

theorem overlay_of_lt {bytes : List UInt8} {i : Nat} (hi : i < bytes.length)
    (h : bytes.length ≤ 2 ^ 64) :
    overlay byteAt addr bytes (addr + UInt64.ofNat i) = some bytes[i] := by
  have hoffset : (addr + UInt64.ofNat i - addr).toNat = i := by
    rw [UInt64.add_comm, UInt64.add_sub_cancel]
    exact UInt64.toNat_ofNat_of_lt' (show i < 2 ^ 64 by omega)
  rw [overlay, hoffset, List.getElem?_eq_getElem hi, Option.some_or]

theorem overlay_of_ne {bytes : List UInt8}
    (h : ∀ i < bytes.length, other ≠ addr + UInt64.ofNat i) :
    overlay byteAt addr bytes other = byteAt other := by
  have hback : addr + UInt64.ofNat (other - addr).toNat = other := by
    rw [UInt64.ofNat_toNat, UInt64.add_comm, UInt64.sub_add_cancel]
  have hpast : bytes.length ≤ (other - addr).toNat := by
    by_contra hbelow
    exact h _ (not_le.mp hbelow) hback.symm
  rw [overlay, List.getElem?_eq_none hpast, Option.none_or]

theorem ByteMemory.byteAt_fill (memory : ByteMemory) {bytes : List UInt8}
    (h : bytes.length ≤ 2 ^ 64) :
    (memory.fill addr bytes).byteAt = overlay memory.byteAt addr bytes := by
  induction bytes generalizing memory addr with
  | nil => simp [fill]
  | cons byte rest ih =>
      rw [List.length_cons] at h
      have hinsert : (⟨memory.cells.insert addr byte⟩ : ByteMemory).byteAt =
          overlay memory.byteAt addr [byte] := by
        funext other
        by_cases hother : other = addr
        · simp [overlay, byteAt, hother]
        · have hne : ∀ i < [byte].length, other ≠ addr + UInt64.ofNat i := by
            simpa using hother
          rw [overlay_of_ne hne]
          simp [byteAt, Std.HashMap.getElem?_insert, Ne.symm hother]
      have hsplit := @overlay_append memory.byteAt addr [byte] rest (by simp; omega)
      rw [fill, ih _ (by omega), hinsert]
      exact hsplit

/-- The `count` bytes from `addr` on are mapped. -/
def Mapped (byteAt : UInt64 → Option UInt8) (addr : UInt64) (count : Nat) : Prop :=
  addr.toNat + count ≤ 2 ^ 64 ∧ ∀ i < count, (byteAt (addr + UInt64.ofNat i)).isSome

theorem room_behind {count more : Nat} (h : addr.toNat + (count + more) ≤ 2 ^ 64) :
    (addr + UInt64.ofNat count).toNat + more ≤ 2 ^ 64 := by
  have hlt := addr.toNat_lt
  have hcount : (UInt64.ofNat count).toNat = count % 2 ^ 64 := UInt64.toNat_ofNat'
  rw [UInt64.toNat_add, hcount]
  omega

theorem Mapped.take {count more : Nat} (h : Mapped byteAt addr (count + more)) :
    Mapped byteAt addr count :=
  ⟨by have := h.1; omega, fun i hi => h.2 i (by omega)⟩

theorem Mapped.drop {count more : Nat} (h : Mapped byteAt addr (count + more)) :
    Mapped byteAt (addr + UInt64.ofNat count) more := by
  refine ⟨room_behind h.1, fun i hi => ?_⟩
  rw [UInt64.add_assoc, ← UInt64.ofNat_add]
  exact h.2 (count + i) (by omega)

theorem Mapped.overlay {count : Nat} (h : Mapped byteAt addr count) (place : UInt64)
    (bytes : List UInt8) : Mapped (overlay byteAt place bytes) addr count := by
  refine ⟨h.1, fun i hi => ?_⟩
  rw [Image.overlay, Option.isSome_or, h.2 i hi, Bool.or_true]

end Image

/-! ## The digits of a number -/

/-- The low digits of a number to the base 256, the lowest first. -/
def digits (n count : Nat) : List UInt8 :=
  (List.range count).map fun i => UInt8.ofNat (n / 256 ^ i)

theorem length_digits (n count : Nat) : (digits n count).length = count := by
  simp [digits]

theorem digit_mod {i count : Nat} (n : Nat) (hi : i < count) :
    UInt8.ofNat (n % 256 ^ count / 256 ^ i) = UInt8.ofNat (n / 256 ^ i) := by
  have hsplit : 256 ^ count = 256 ^ i * 256 ^ (count - i) := by
    rw [← Nat.pow_add, Nat.add_sub_cancel' hi.le]
  have hdvd : 256 ∣ 256 ^ (count - i) := dvd_pow_self 256 (by omega)
  apply UInt8.toNat_inj.mp
  rw [hsplit, Nat.mod_mul_right_div_self, UInt8.toNat_ofNat', UInt8.toNat_ofNat']
  exact Nat.mod_mod_of_dvd _ hdvd

theorem digits_mod {size count : Nat} (n : Nat) (h : size ≤ count) :
    digits (n % 256 ^ count) size = digits n size := by
  apply List.map_congr_left
  intro i hi
  exact digit_mod n (lt_of_lt_of_le (List.mem_range.mp hi) h)

theorem flatMap_digits (n size count : Nat) :
    ((List.range count).flatMap fun i => digits (n / 256 ^ (size * i)) size) =
      digits n (count * size) := by
  induction count with
  | zero => simp [digits]
  | succ count ih =>
      have hlast : digits (n / 256 ^ (size * count)) size =
          (List.range size).map fun j => UInt8.ofNat (n / 256 ^ (count * size + j)) := by
        apply List.map_congr_left
        intro j _
        rw [Nat.div_div_eq_div_mul, ← Nat.pow_add, Nat.mul_comm]
      have hsplit : digits n ((count + 1) * size) = digits n (count * size) ++
          (List.range size).map fun j => UInt8.ofNat (n / 256 ^ (count * size + j)) := by
        rw [digits, Nat.succ_mul, List.range_add, List.map_append, List.map_map]
        rfl
      rw [List.range_succ, List.flatMap_append, ih, hsplit, List.flatMap_singleton, hlast]

theorem bytesOfWordLE_eq_digits (size : Nat) (value : UInt64) :
    bytesOfWordLE size value = digits value.toNat size := by
  apply List.map_congr_left
  intro i _
  rw [Nat.shiftRight_eq_div_pow, Nat.pow_mul]

theorem toNat_and_wordMask_of_le {arch : Arch} (hsize : arch.addressSize ≤ 8) (value : UInt64) :
    (value &&& arch.wordMask).toNat = value.toNat % 256 ^ arch.addressSize := by
  rw [Arch.toNat_and_wordMask, Arch.wordBits, Nat.min_eq_left hsize, Nat.pow_mul]

theorem ofNat_toNat_mod {arch : Arch} (hsize : arch.addressSize ≤ 8) (value : UInt64) :
    UInt64.ofNat (value.toNat % 256 ^ arch.addressSize) = value &&& arch.wordMask := by
  rw [← toNat_and_wordMask_of_le hsize, UInt64.ofNat_toNat]

theorem bytesOfWord_and_wordMask {arch : Arch} (hsize : arch.addressSize ≤ 8) (value : UInt64) :
    bytesOfWord arch.endian arch.addressSize (value &&& arch.wordMask) =
      bytesOfWord arch.endian arch.addressSize value := by
  have hlow : bytesOfWordLE arch.addressSize (value &&& arch.wordMask) =
      bytesOfWordLE arch.addressSize value := by
    rw [bytesOfWordLE_eq_digits, bytesOfWordLE_eq_digits, toNat_and_wordMask_of_le hsize,
      digits_mod _ le_rfl]
  unfold bytesOfWord
  rw [hlow]

/-! ## Words one behind the other -/

open Image

/-- The words that bytes of the memory make up can be read. -/
def Target.Sees (target : Target) (byteAt : UInt64 → Option UInt8) : Prop :=
  ∀ addr word, wordOfMemory target.arch byteAt addr = .ok word → target.loadWord addr = .ok word

/-- The addresses of words one behind the other. -/
def Arch.wordAddresses (arch : Arch) (addr : UInt64) (count : Nat) : List UInt64 :=
  (List.range count).map fun i => addr + UInt64.ofNat i * arch.wordSize

theorem Arch.wordAddresses_succ (arch : Arch) (addr : UInt64) (count : Nat) :
    arch.wordAddresses addr (count + 1) =
      addr :: arch.wordAddresses (addr + arch.wordSize) count := by
  have hfirst : addr + UInt64.ofNat 0 * arch.wordSize = addr := by simp
  rw [Arch.wordAddresses, List.range_succ_eq_map, List.map_cons, List.map_map, hfirst]
  congr 1
  apply List.map_congr_left
  intro i _
  rw [Function.comp_apply, Nat.succ_eq_add_one, UInt64.ofNat_add]
  grind

theorem mapM_congr {α β : Type} {f g : α → Option β} {l : List α} (h : ∀ a ∈ l, f a = g a) :
    l.mapM f = l.mapM g := by
  induction l with
  | nil => rfl
  | cons first rest ih =>
      rw [List.mapM_cons, List.mapM_cons, h first List.mem_cons_self,
        ih fun a ha => h a (List.mem_cons_of_mem _ ha)]

namespace Image

variable {arch : Arch} {byteAt : UInt64 → Option UInt8} {addr : UInt64}

theorem wordOfMemory_congr {byteAt' : UInt64 → Option UInt8}
    (h : ∀ i < arch.addressSize,
      byteAt (addr + UInt64.ofNat i) = byteAt' (addr + UInt64.ofNat i)) :
    wordOfMemory arch byteAt addr = wordOfMemory arch byteAt' addr := by
  have hbytes : (byteAddresses addr arch.addressSize).bind (·.mapM byteAt) =
      (byteAddresses addr arch.addressSize).bind (·.mapM byteAt') := by
    unfold byteAddresses
    split
    · rw [Option.bind_some, Option.bind_some]
      apply mapM_congr
      intro place hplace
      obtain ⟨i, hi, rfl⟩ := List.mem_map.mp hplace
      exact h i (List.mem_range.mp hi)
    · rfl
  unfold wordOfMemory
  rw [hbytes]

theorem mapped_of_wordOfMemory {word : UInt64} (h : wordOfMemory arch byteAt addr = .ok word) :
    Mapped byteAt addr arch.addressSize := by
  have hroom : addr.toNat + arch.addressSize ≤ 2 ^ 64 := by
    by_contra hpast
    have hnone : byteAddresses addr arch.addressSize = none := if_neg hpast
    rw [wordOfMemory, hnone] at h
    cases h
  refine ⟨hroom, fun i hi => ?_⟩
  by_contra hnone
  rw [Option.not_isSome_iff_eq_none] at hnone
  rw [wordOfMemory_eq_error hroom hi hnone] at h
  cases h

theorem wordOfMemory_of_stands {bytes : List UInt8} (hlength : bytes.length = arch.addressSize)
    (hroom : addr.toNat + arch.addressSize ≤ 2 ^ 64)
    (h : ∀ i (hi : i < bytes.length), byteAt (addr + UInt64.ofNat i) = some bytes[i]) :
    wordOfMemory arch byteAt addr = .ok (wordOfBytes arch.endian bytes) := by
  have hall : (List.ofFn fun i : Fin arch.addressSize => bytes.get (i.cast hlength.symm)) =
      bytes := by
    apply List.ext_getElem
    · rw [List.length_ofFn, hlength]
    · simp
  have hword := @wordOfMemory_eq_ok arch byteAt addr hroom
    (fun i => bytes.get (i.cast hlength.symm)) fun i => h (i.cast hlength.symm) _
  rwa [hall] at hword

/-- The first of the words laid over a memory is read back, cut to its size. -/
theorem wordOfMemory_overlay (word : UInt64) (rest : List UInt8)
    (hroom : addr.toNat + (arch.addressSize + rest.length) ≤ 2 ^ 64) :
    wordOfMemory arch
        (overlay byteAt addr (bytesOfWord arch.endian arch.addressSize word ++ rest)) addr =
      .ok (UInt64.ofNat (word.toNat % 256 ^ arch.addressSize)) := by
  have hlength := length_bytesOfWord arch.endian arch.addressSize word
  rw [← wordOfBytes_bytesOfWord arch.endian]
  apply wordOfMemory_of_stands hlength (by omega)
  intro i hi
  rw [overlay_of_lt (by rw [List.length_append]; omega)
    (by rw [List.length_append, hlength]; omega), List.getElem_append_left hi]

end Image

theorem length_flatMap_bytesOfWord (endian : Endian) (size : Nat) (words : List UInt64) :
    (words.flatMap (bytesOfWord endian size)).length = words.length * size := by
  simp [List.length_flatMap, length_bytesOfWord]

namespace AddressSpace

variable {World Thread : Type} {space : AddressSpace World Thread}
  {byteAt : World → UInt64 → Option UInt8} {world : World} {thread : Thread} {validate : Bool}
  {addr : UInt64}

/-- The words of the space are made of the bytes of one memory, and a word that
can be read can be replaced, byte by byte. -/
structure KeepsBytes (space : AddressSpace World Thread)
    (byteAt : World → UInt64 → Option UInt8) : Prop where
  loadWord : ∀ world thread addr,
    space.loadWord world thread addr = wordOfMemory space.arch (byteAt world) addr
  storeWord : ∀ world thread addr value word, space.loadWord world thread addr = .ok word →
    ∃ after, space.storeWord thread addr value world = .ok () after ∧
      byteAt after = overlay (byteAt world) addr
        (bytesOfWord space.arch.endian space.arch.addressSize value)

/-- Words that can be read pass the probe. -/
def ProbesReadable (space : AddressSpace World Thread) : Prop :=
  ∀ world thread addr word, space.loadWord world thread addr = .ok word →
    space.probe world thread addr = .ok ()

theorem KeepsBytes.exists_word (h : space.KeepsBytes byteAt)
    (hmapped : Mapped (byteAt world) addr space.arch.addressSize) :
    ∃ word, space.loadWord world thread addr = .ok word := by
  obtain ⟨hroom, hthere⟩ := hmapped
  choose bytes hbytes using fun i : Fin space.arch.addressSize =>
    Option.isSome_iff_exists.mp (hthere i i.isLt)
  exact ⟨_, (h.loadWord world thread addr).trans (wordOfMemory_eq_ok hroom hbytes)⟩

theorem KeepsBytes.sees (h : space.KeepsBytes byteAt)
    (hprobe : validate = true → space.ProbesReadable) :
    (space.target world thread validate).Sees (byteAt world) := by
  intro addr word hword
  have hload := (h.loadWord world thread addr).trans hword
  cases validate with
  | false => exact hload
  | true =>
      change (space.probe world thread addr >>= fun _ => space.loadWord world thread addr) = _
      rw [hprobe rfl _ _ _ _ hload, ok_bind, hload]

theorem KeepsBytes.writeWord (h : space.KeepsBytes byteAt)
    (hprobe : validate = true → space.ProbesReadable) (hsize : space.arch.addressSize ≤ 8)
    (hmapped : Mapped (byteAt world) addr space.arch.addressSize) (value : UInt64) :
    ∃ after, space.writeWord thread validate addr value world = .ok () after ∧
      byteAt after = overlay (byteAt world) addr
        (bytesOfWord space.arch.endian space.arch.addressSize value) := by
  obtain ⟨word, hload⟩ := h.exists_word hmapped
  obtain ⟨after, hstore, hafter⟩ :=
    h.storeWord world thread addr (value &&& space.arch.wordMask) word hload
  rw [bytesOfWord_and_wordMask hsize] at hafter
  refine ⟨after, ?_, hafter⟩
  cases validate with
  | false => exact hstore
  | true =>
      have hpasses := hprobe rfl world thread addr word hload
      simp only [AddressSpace.writeWord, if_true, Action.get_bind_apply, hpasses,
        Action.lift_ok_bind_apply, hstore]

theorem KeepsBytes.writeWords (h : space.KeepsBytes byteAt)
    (hprobe : validate = true → space.ProbesReadable) (hsize : space.arch.addressSize ≤ 8)
    (words : List UInt64)
    (hmapped : Mapped (byteAt world) addr (words.length * space.arch.addressSize)) :
    ∃ after,
      space.writeWords thread validate
          ((space.arch.wordAddresses addr words.length).zip words) world = .ok () after ∧
        byteAt after = overlay (byteAt world) addr
          (words.flatMap (bytesOfWord space.arch.endian space.arch.addressSize)) := by
  induction words generalizing world addr with
  | nil => exact ⟨world, rfl, by simp⟩
  | cons word rest ih =>
      rw [List.length_cons, Nat.add_mul, Nat.one_mul, Nat.add_comm] at hmapped
      obtain ⟨next, hwrite, hnext⟩ := h.writeWord hprobe hsize hmapped.take word
      have hrest : Mapped (byteAt next) (addr + space.arch.wordSize)
          (rest.length * space.arch.addressSize) := by
        rw [hnext]
        exact hmapped.drop.overlay _ _
      obtain ⟨after, hwrites, hafter⟩ := ih hrest
      refine ⟨after, ?_, ?_⟩
      · rw [List.length_cons, Arch.wordAddresses_succ, List.zip_cons_cons, AddressSpace.writeWords,
          Action.bind_eq_of_ok hwrite, hwrites]
      · have hlength := length_bytesOfWord space.arch.endian space.arch.addressSize word
        have hall := length_flatMap_bytesOfWord space.arch.endian space.arch.addressSize rest
        have hroom := hmapped.1
        rw [hafter, hnext, List.flatMap_cons, ← overlay_append (by rw [hlength, hall]; omega),
          hlength]
        rfl

end AddressSpace

namespace Target

variable {target : Target} {byteAt : UInt64 → Option UInt8} {addr : UInt64}

theorem mapM_readWord (words : List UInt64) (hsize : target.arch.addressSize ≤ 8)
    (hroom : addr.toNat + words.length * target.arch.addressSize ≤ 2 ^ 64)
    (hsees : target.Sees (overlay byteAt addr
      (words.flatMap (bytesOfWord target.arch.endian target.arch.addressSize)))) :
    (target.arch.wordAddresses addr words.length).mapM target.readWord =
      .ok (words.map (· &&& target.arch.wordMask)) := by
  induction words generalizing byteAt addr with
  | nil => rfl
  | cons word rest ih =>
      have hlength := length_bytesOfWord target.arch.endian target.arch.addressSize word
      have hall := length_flatMap_bytesOfWord target.arch.endian target.arch.addressSize rest
      rw [List.length_cons, Nat.add_mul, Nat.one_mul, Nat.add_comm (_ * _)] at hroom
      rw [List.flatMap_cons] at hsees
      have hhead := @wordOfMemory_overlay target.arch byteAt addr word
        (rest.flatMap (bytesOfWord target.arch.endian target.arch.addressSize))
        (by rwa [hall])
      have hfirst : target.readWord addr = .ok (word &&& target.arch.wordMask) := by
        rw [readWord, hsees _ _ hhead, ok_bind, ofNat_toNat_mod hsize, UInt64.and_assoc,
          UInt64.and_self, pure_eq_ok]
      have hrest : (target.arch.wordAddresses (addr + target.arch.wordSize) rest.length).mapM
          target.readWord = .ok (rest.map (· &&& target.arch.wordMask)) := by
        apply ih (room_behind hroom)
        rw [← overlay_append (by rw [hlength, hall]; omega), hlength] at hsees
        exact hsees
      rw [List.length_cons, Arch.wordAddresses_succ, List.mapM_cons, hfirst, ok_bind, hrest,
        ok_bind, List.map_cons, pure_eq_ok]

end Target

/-! ## The images of programs keep bytes -/

namespace Image

theorem ByteMemory.storeWord_eq_ok {memory : ByteMemory} {arch : Arch} {addr word : UInt64}
    (h : memory.loadWord arch addr = .ok word) (value : UInt64) :
    memory.storeWord arch addr value =
      .ok (memory.fill addr (bytesOfWord arch.endian arch.addressSize value)) := by
  rw [storeWord, h, ok_bind, pure_eq_ok]

theorem ByteMemory.byteAt_fill_word (memory : ByteMemory) {arch : Arch}
    (hsize : arch.addressSize ≤ 8) (addr value : UInt64) :
    (memory.fill addr (bytesOfWord arch.endian arch.addressSize value)).byteAt =
      overlay memory.byteAt addr (bytesOfWord arch.endian arch.addressSize value) :=
  byteAt_fill _ (by rw [length_bytesOfWord]; omega)

theorem ImageConfig.space_keepsBytes (config : ImageConfig)
    (hsize : config.arch.addressSize ≤ 8) :
    config.space.KeepsBytes fun image => image.memory.byteAt where
  loadWord _ _ _ := rfl
  storeWord image thread addr value word hload := by
    have hstore := ByteMemory.storeWord_eq_ok hload value
    have hafter := image.memory.byteAt_fill_word hsize addr value
    refine ⟨{ image with
      memory := image.memory.fill addr
        (bytesOfWord config.arch.endian config.arch.addressSize value)
      writes := (addr, value) :: image.writes }, ?_, hafter⟩
    change config.storeWord addr value image = _
    simp only [ImageConfig.storeWord, Action.get_bind_apply, hstore, Action.lift_ok_bind_apply,
      Action.set_apply]

theorem PagePair.space_keepsBytes {arch : Arch} (hsize : arch.addressSize ≤ 8) :
    (PagePair.space arch).KeepsBytes fun pages => pages.memory.byteAt where
  loadWord _ _ _ := rfl
  storeWord pages thread addr value word hload := by
    have hstore := ByteMemory.storeWord_eq_ok hload value
    refine ⟨{ pages with
      memory := pages.memory.fill addr (bytesOfWord arch.endian arch.addressSize value) }, ?_,
      pages.memory.byteAt_fill_word hsize addr value⟩
    simp only [PagePair.space, Action.get_bind_apply, hstore, Action.lift_ok_bind_apply,
      Action.set_apply]

end Image
end StackWalk
