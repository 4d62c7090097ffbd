import StackWalk.Cfi.Entry
import StackWalk.Proofs.Leb128
import StackWalk.Proofs.Word

/-!
# Entries read back

An entry is its length, an identifier, fields and a program.  Where bytes of
that shape stand in memory the readers of entries go through them field by
field, and the program is what is left.
-/

namespace StackWalk

variable {target : Target} {pos : UInt64}

namespace Target

/-- A plain word of the target is a pointer as it stands. -/
theorem reads_readPointer {value : UInt64} (bases : PointerBases)
    (h : value ≤ target.arch.wordMask) :
    target.Reads pos (target.readPointer .absolute bases)
      (bytesOfWord target.arch.endian target.arch.addressSize value) value := by
  rw [UInt64.le_iff_toNat_le] at h
  have hmask := target.arch.toNat_wordMask
  have hpow := target.arch.pow_wordBits_le
  have hpos := Nat.two_pow_pos target.arch.wordBits
  have hword : target.Reads pos target.readTargetWord _ value := reads_word (by omega)
  have hpointer : target.pointerOfStored .absolute bases pos value = .ok value := by
    unfold pointerOfStored
    by_cases hzero : value = 0
    · rw [if_pos hzero, hzero]
      rfl
    · rw [if_neg hzero]
      change Except.ok (value &&& target.arch.wordMask) = _
      rw [Arch.and_wordMask h]
  have hread : target.readPointer .absolute bases =
      (get >>= fun fieldAddr => target.readTargetWord >>= fun value =>
        liftM (target.pointerOfStored .absolute bases fieldAddr value)) := rfl
  rw [hread]
  refine .get_bind (hword.bind_pure ?_)
  rw [hpointer]
  rfl

end Target

namespace Cfi

open Target

/-! ## Headers -/

theorem reads_readEntryLength {length : UInt64} (h : length.toNat < 0xffffffff) :
    target.Reads pos (readEntryLength target) (bytesOfWord target.arch.endian 4 length)
      (length, false) := by
  have hword : target.Reads pos (target.readUInt 4) (bytesOfWord target.arch.endian 4 length)
      length := reads_word (by omega)
  have hones : length ≠ 0xffffffff := by
    rintro rfl
    exact absurd h (by decide)
  refine hword.bind_pure ?_
  rw [if_neg hones]

theorem reads_readEntryHeader {length id : UInt64} (hlength : 4 ≤ length.toNat)
    (hshort : length.toNat < 0xffffffff) (hid : id.toNat < 2 ^ 32)
    (hroom : pos.toNat + 4 + length.toNat < 2 ^ 64) :
    target.Reads pos (readEntryHeader target)
      (bytesOfWord target.arch.endian 4 length ++ bytesOfWord target.arch.endian 4 id)
      { idField := pos + 4, id, is64 := false, body := pos + 8, stop := pos + 4 + length } := by
  have hzero : length ≠ 0 := by
    rintro rfl
    exact absurd hlength (by decide)
  have hfour : (pos + 4).toNat = pos.toNat + 4 := @toNat_add_ofNat pos 4 (by omega)
  have height : (pos + 8).toNat = pos.toNat + 8 := @toNat_add_ofNat pos 8 (by omega)
  have hstop : (pos + 4 + length).toNat = pos.toNat + 4 + length.toNat := by
    rw [UInt64.toNat_add, hfour, Nat.mod_eq_of_lt hroom]
  have hword : target.Reads (pos + 4) (target.readUInt 4) (bytesOfWord target.arch.endian 4 id)
      id := reads_word (by omega)
  have hend : entryEnd (pos + 4) length = .ok (pos + 4 + length) := by
    rw [← hfour] at hroom
    simp only [entryEnd, checkedAdd_of_lt hroom]
  have hbehind : pos + 4 + UInt64.ofNat (bytesOfWord target.arch.endian 4 id).length = pos + 8 := by
    rw [length_bytesOfWord, UInt64.add_assoc]
    rfl
  have hinside : ¬pos + 4 + length < pos + 8 := by
    rw [UInt64.lt_iff_toNat_lt]
    omega
  refine (reads_readEntryLength hshort).bind ?_
  dsimp only
  rw [if_neg hzero, length_bytesOfWord]
  refine .get_bind (.lift_bind hend (hword.bind_last ?_))
  rw [hbehind]
  refine .get_bind ?_
  rw [if_neg hinside]
  exact .pure _

/-! ## Common information entries -/

/-- What the augmentation `zR` says of plain addresses. -/
def plainAugmentation : Augmentation :=
  { Augmentation.none with hasData := true }

/-- The bytes from the version to the program of a CIE with plain addresses. -/
def plainCieFields (codeAlign : UInt64) (dataAlign : Int64) (returnAddress : UInt8) : List UInt8 :=
  [1] ++ ([0x7a, 0x52, 0] ++ (Leb128.encodeUnsigned codeAlign ++
    (Leb128.encodeSigned dataAlign ++ ([returnAddress] ++ (Leb128.encodeUnsigned 1 ++ [0])))))

theorem reads_readAugmentationString :
    target.Reads pos (readAugmentationString target maxAugmentationLength) [0x7a, 0x52, 0]
      [0x7a, 0x52] := by
  have hlast : target.Reads (pos + UInt64.ofNat 1 + UInt64.ofNat 1)
      (readAugmentationString target 6) [0] [] :=
    (reads_readU8 0).bind_pure rfl
  have hrest : target.Reads (pos + UInt64.ofNat 1) (readAugmentationString target 7)
      ([0x52] ++ [0]) [0x52] :=
    (reads_readU8 0x52).bind (hlast.bind_pure rfl)
  exact (reads_readU8 0x7a).bind (hrest.bind_pure rfl)

theorem reads_readAugmentation (bases : PointerBases) {stop : UInt64}
    (hroom : pos.toNat + (Leb128.encodeUnsigned 1 ++ [0]).length ≤ stop.toNat) :
    target.Reads pos (readAugmentation target bases stop [0x7a, 0x52])
      (Leb128.encodeUnsigned 1 ++ [0]) plainAugmentation := by
  have hone : Leb128.encodeUnsigned 1 = [1] := by
    simp [Leb128.encodeUnsigned, Leb128.encodeNat]
  rw [hone] at hroom ⊢
  change pos.toNat + 2 ≤ stop.toNat at hroom
  have hlt := stop.toNat_lt
  have hfirst : (pos + 1).toNat = pos.toNat + 1 := @toNat_add_ofNat pos 1 (by omega)
  have hsecond : (pos + 1 + 1).toNat = (pos + 1).toNat + 1 :=
    @toNat_add_ofNat (pos + 1) 1 (by omega)
  have hend : augmentationEnd (pos + 1) 1 (some stop) .cieDataOverruns = .ok (pos + 1 + 1) := by
    have hfits : (pos + 1).toNat + (1 : UInt64).toNat < 2 ^ 64 := by
      rw [UInt64.toNat_one]
      omega
    have hinside : pos + 1 + 1 ≤ stop := by
      rw [UInt64.le_iff_toNat_le]
      omega
    simp only [augmentationEnd, checkedAdd_of_lt hfits, Option.all_some, hinside,
      decide_true, if_true]
  have hdata : target.Reads (pos + 1)
      (readAugmentationData target bases [0x52] { Augmentation.none with hasData := true }) [0]
      plainAugmentation :=
    (reads_readU8 0).bind_pure rfl
  have hlength : target.Reads pos target.readULeb128 [1] 1 := by
    rw [← hone]
    exact reads_uleb128 1
  refine hlength.bind (.get_bind (.lift_bind hend (hdata.bind_last ?_)))
  exact .set_bind (.pure _)

theorem restOfEntry_eq_ok {stop : UInt64} (h : pos ≤ stop) {overrun : Defect} :
    restOfEntry pos stop overrun = .ok ⟨pos, stop⟩ :=
  if_pos h

theorem reads_readCieBody (bases : PointerBases) (address : UInt64) {stop codeAlign : UInt64}
    {dataAlign : Int64} {returnAddress : UInt8} (hcode : codeAlign ≠ 0) (hdata : dataAlign ≠ 0)
    (hcolumn : returnAddress.toNat < target.arch.numRegs)
    (hroom : pos.toNat + (plainCieFields codeAlign dataAlign returnAddress).length ≤
      stop.toNat) :
    target.Reads pos (readCieBody target bases address stop)
      (plainCieFields codeAlign dataAlign returnAddress)
      { address, version := 1, augmentation := plainAugmentation, codeAlign, dataAlign,
        returnAddress := returnAddress.toNat,
        program := ⟨pos + UInt64.ofNat (plainCieFields codeAlign dataAlign returnAddress).length,
          stop⟩ } := by
  have hfactors : checkFactors codeAlign dataAlign = .ok () := by
    rw [checkFactors, if_neg hcode, if_neg hdata]
  have hreg : target.arch.checkReg returnAddress.toUInt64 = .ok returnAddress.toNat := by
    rw [Arch.checkReg_eq_ok_iff, UInt8.toNat_toUInt64]
    exact ⟨hcolumn, rfl⟩
  have hsizes : readSizes target 1 = pure () := rfl
  have hreturn {pos : UInt64} : target.Reads pos (readReturnAddress target 1) [returnAddress]
      returnAddress.toUInt64 :=
    (reads_readU8 returnAddress).bind_pure rfl
  have hlt := stop.toNat_lt
  unfold plainCieFields at hroom ⊢
  unfold readCieBody
  refine (reads_readU8 1).bind ?_
  rw [if_neg (by decide)]
  refine reads_readAugmentationString.bind ?_
  rw [hsizes, pure_bind]
  refine (reads_uleb128 codeAlign).bind ((reads_sleb128 dataAlign).bind ?_)
  refine hreturn.bind (.lift_bind hfactors (.lift_bind hreg ?_))
  refine (reads_readAugmentation bases ?_).bind_last (.get_bind ?_)
  · rw [add_ofNat_length, add_ofNat_length, add_ofNat_length, add_ofNat_length,
      toNat_add_ofNat (by simp only [List.length_append] at hroom ⊢; omega)]
    simp only [List.length_append] at hroom ⊢
    omega
  · simp only [add_ofNat_length, List.append_assoc]
    refine .lift_bind (restOfEntry_eq_ok ?_) (.pure _)
    rw [UInt64.le_iff_toNat_le, toNat_add_ofNat (by omega)]
    exact hroom

/-! ## Frame description entries -/

/-- The bytes from the first address to the program of an FDE whose CIE has plain addresses. -/
def plainFdeFields (arch : Arch) (start stop : UInt64) : List UInt8 :=
  bytesOfWord arch.endian arch.addressSize start ++
    (bytesOfWord arch.endian arch.addressSize (stop - start) ++ Leb128.encodeUnsigned 0)

theorem reads_readLsda (bases : PointerBases) (start : UInt64) :
    target.Reads pos (readLsda target bases plainAugmentation start) (Leb128.encodeUnsigned 0)
      0 := by
  have hend (pos : UInt64) : augmentationEnd pos 0 none .fdeDataOverruns = .ok pos := by
    have hfits : pos.toNat + (0 : UInt64).toNat < 2 ^ 64 := pos.toNat_lt
    simp only [augmentationEnd, checkedAdd_of_lt hfits, Option.all_none, if_true,
      UInt64.add_zero]
  refine (reads_uleb128 0).bind_last (.get_bind (.lift_bind (hend _) ?_))
  change target.Reads _ ((set (_ : UInt64) : Scan PUnit) >>= fun _ => pure 0) [] 0
  exact .set_bind (.pure _)

theorem reads_readFdeBody (bases : PointerBases) (address : UInt64) {cie : Cie}
    {stop start last : UInt64} (hplain : cie.augmentation = plainAugmentation)
    (hrange : start < last) (hmask : last ≤ target.arch.wordMask)
    (hroom : pos.toNat + (plainFdeFields target.arch start last).length ≤ stop.toNat) :
    target.Reads pos (readFdeBody target bases address cie stop)
      (plainFdeFields target.arch start last)
      { address, cie, start, stop := last, lsda := 0,
        program := ⟨pos + UInt64.ofNat (plainFdeFields target.arch start last).length, stop⟩ } := by
  have hlt := stop.toNat_lt
  have hle : start ≤ last := UInt64.le_of_lt hrange
  have hlength : last - start ≤ target.arch.wordMask := by
    rw [UInt64.le_iff_toNat_le] at hmask ⊢
    rw [UInt64.toNat_sub_of_le _ _ hle]
    omega
  have hlast : (start + (last - start)) &&& target.arch.wordMask = last := by
    rw [UInt64.add_comm, UInt64.sub_add_cancel, Arch.and_wordMask (UInt64.le_iff_toNat_le.mp hmask)]
  unfold plainFdeFields at hroom ⊢
  unfold readFdeBody
  rw [hplain]
  refine (reads_readPointer bases (UInt64.le_trans hle hmask)).bind ?_
  refine (reads_readPointer bases hlength).bind ?_
  refine (reads_readLsda bases start).bind_last (.get_bind ?_)
  simp only [add_ofNat_length, List.append_assoc, hlast]
  refine .lift_bind (restOfEntry_eq_ok ?_) ?_
  · rw [UInt64.le_iff_toNat_le, toNat_add_ofNat (by omega)]
    exact hroom
  · rw [if_pos hrange]
    exact .pure _

/-! ## Whole entries -/

/-- At `address` stands an entry with its length and its identifier in front of the fields. -/
structure Framed (target : Target) (address length id : UInt64) (fields rest : List UInt8) :
    Prop where
  holds : target.Holds address (bytesOfWord target.arch.endian 4 length ++
    (bytesOfWord target.arch.endian 4 id ++ (fields ++ rest)))
  length_eq : length.toNat = 4 + fields.length + rest.length
  short : length.toNat < 0xffffffff
  id_lt : id.toNat < 2 ^ 32
  room : address.toNat + 4 + length.toNat < 2 ^ 64

namespace Framed

variable {address length id : UInt64} {fields rest : List UInt8}

theorem toNat_body (h : Framed target address length id fields rest) :
    (address + 8).toNat = address.toNat + 8 :=
  @toNat_add_ofNat address 8 (by have := h.room; have := h.length_eq; omega)

theorem toNat_stop (h : Framed target address length id fields rest) :
    (address + 4 + length).toNat = address.toNat + 4 + length.toNat := by
  have hroom := h.room
  have hfour : (address + 4).toNat = address.toNat + 4 := @toNat_add_ofNat address 4 (by omega)
  rw [UInt64.toNat_add, hfour, Nat.mod_eq_of_lt hroom]

theorem entryHeader_eq (h : Framed target address length id fields rest) :
    entryHeader target address = .ok { idField := address + 4, id, is64 := false,
                                       body := address + 8, stop := address + 4 + length } := by
  have hroom := h.room
  have hlength := h.length_eq
  have hholds := h.holds
  rw [← List.append_assoc] at hholds
  have hreads : target.Reads address _ _ _ :=
    reads_readEntryHeader (by omega) h.short h.id_lt hroom
  refine hreads.answer (holds_append.mp hholds).1 ?_
  simp only [List.length_append, length_bytesOfWord]
  omega

theorem holds_body (h : Framed target address length id fields rest) :
    target.Holds (address + 8) (fields ++ rest) := by
  have hid := (holds_append.mp h.holds).2
  have hbody := (holds_append.mp hid).2
  rw [length_bytesOfWord, length_bytesOfWord, UInt64.add_assoc] at hbody
  exact hbody

/-- What follows the fields reaches to the end of the entry. -/
theorem readBytes_rest (h : Framed target address length id fields rest) :
    target.readBytes (address + 8 + UInt64.ofNat fields.length)
      (address + 4 + length - (address + 8 + UInt64.ofNat fields.length)).toNat = .ok rest := by
  have hroom := h.room
  have hlength := h.length_eq
  have hbody := h.toNat_body
  have hstart := @toNat_add_ofNat (address + 8) fields.length (by omega)
  have hsize : (address + 4 + length - (address + 8 + UInt64.ofNat fields.length)).toNat =
      rest.length := by
    rw [UInt64.toNat_sub_of_le, hstart, h.toNat_stop, hbody]
    · omega
    · rw [UInt64.le_iff_toNat_le, hstart, h.toNat_stop, hbody]
      omega
  rw [hsize]
  exact (holds_append.mp h.holds_body).2.readBytes

theorem parseCie_eq {codeAlign : UInt64} {dataAlign : Int64} {returnAddress : UInt8}
    (h : Framed target address length 0 (plainCieFields codeAlign dataAlign returnAddress) rest)
    (hcode : codeAlign ≠ 0) (hdata : dataAlign ≠ 0)
    (hcolumn : returnAddress.toNat < target.arch.numRegs) (bases : PointerBases) :
    parseCie target address .ehFrame bases =
      .ok { address, version := 1, augmentation := plainAugmentation, codeAlign, dataAlign,
            returnAddress := returnAddress.toNat,
            program := ⟨address + 8 + UInt64.ofNat
              (plainCieFields codeAlign dataAlign returnAddress).length,
              address + 4 + length⟩ } := by
  have hlength := h.length_eq
  have hbody := h.toNat_body
  have hstop := h.toNat_stop
  have hlt := (address + 4 + length).toNat_lt
  simp only [parseCie, h.entryHeader_eq, ok_bind, EntryHeader.isCie, BEq.rfl, if_true]
  exact (reads_readCieBody bases address hcode hdata hcolumn (by omega)).answer
    (holds_append.mp h.holds_body).1 (by omega)

theorem parseFde_eq {cie : Cie} {start stop : UInt64}
    (h : Framed target address length id (plainFdeFields target.arch start stop) rest)
    (hid : id ≠ 0) (bases : PointerBases)
    (hcie : parseCie target (address + 4 - id) .ehFrame bases = .ok cie)
    (hplain : cie.augmentation = plainAugmentation) (hrange : start < stop)
    (hmask : stop ≤ target.arch.wordMask) :
    parseFde target address .ehFrame bases =
      .ok { address, cie, start, stop, lsda := 0,
            program := ⟨address + 8 + UInt64.ofNat (plainFdeFields target.arch start stop).length,
              address + 4 + length⟩ } := by
  have hlength := h.length_eq
  have hbody := h.toNat_body
  have hstop := h.toNat_stop
  have hlt := (address + 4 + length).toNat_lt
  have hkind : (id == 0) = false := beq_false_of_ne hid
  simp only [parseFde, h.entryHeader_eq, ok_bind, EntryHeader.isCie, hkind,
    EntryHeader.cieAddress, hcie]
  exact (reads_readFdeBody bases address hplain hrange hmask (by omega)).answer
    (holds_append.mp h.holds_body).1 (by omega)

end Framed

end Cfi
end StackWalk
