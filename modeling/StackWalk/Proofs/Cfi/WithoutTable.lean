import Mathlib
import StackWalk.Proofs.Cfi.SearchTable
import StackWalk.Proofs.Cfi.UnreadBytes
import StackWalk.Proofs.Echo

/-!
# A header with and without its table

The same header may have its table or not: two bytes of it say so.  Without the
table the chain is searched, and the answers are the same, as long as nothing
that is read for the chain depends on these two bytes.  A pointer that is stored
elsewhere may be stored in the very word that holds them.
-/

namespace StackWalk

theorem Target.readU8_eq_ok_iff {target : Target} {pos next : UInt64} {byte : UInt8} :
    target.readU8 pos = .ok byte next ↔
      pos.toNat + 1 < 2 ^ 64 ∧ next = pos + 1 ∧ target.readByte pos = .ok byte := by
  constructor
  · intro h
    obtain ⟨hnext, hbyte⟩ := readU8_eq_ok h
    have hlt := next.toNat_lt
    refine ⟨by omega, UInt64.toNat_inj.mp ?_, hbyte⟩
    rw [hnext, UInt64.toNat_add]
    exact (Nat.mod_eq_of_lt (show pos.toNat + 1 < 2 ^ 64 by omega)).symm
  · rintro ⟨hroom, rfl, hbyte⟩
    exact reads_readU8 byte ⟨hbyte, trivial⟩ hroom

namespace Cfi

variable {target full bare : Target} {hdr rest chain : UInt64} {header : TableHeader}
  {table : SearchTable} {fdes listed : List Fde}

/-! ## The fixed part of a header -/

theorem readTableHeader_eq_ok_iff {field : UInt64} :
    readTableHeader target hdr = .ok header field ↔
      hdr.toNat + 4 < 2 ^ 64 ∧ field = hdr + 4 ∧ target.readByte hdr = .ok header.version ∧
        target.readByte (hdr + 1) = .ok header.framePointerEncoding.byte ∧
        target.readByte (hdr + 2) = .ok header.countEncoding.byte ∧
        target.readByte (hdr + 3) = .ok header.tableEncoding.byte := by
  have htwo : hdr + 1 + 1 = hdr + 2 := UInt64.add_assoc hdr 1 1
  have hthree : hdr + 2 + 1 = hdr + 3 := UInt64.add_assoc hdr 2 1
  have hfour : hdr + 3 + 1 = hdr + 4 := UInt64.add_assoc hdr 3 1
  have hnat (k : Nat) : (hdr + UInt64.ofNat k).toNat = (hdr.toNat + k % 2 ^ 64) % 2 ^ 64 := by
    rw [UInt64.toNat_add, UInt64.toNat_ofNat']
  have hnatOne : (hdr + 1).toNat = (hdr.toNat + 1) % 2 ^ 64 := hnat 1
  have hnatTwo : (hdr + 2).toNat = (hdr.toNat + 2) % 2 ^ 64 := hnat 2
  have hnatThree : (hdr + 3).toNat = (hdr.toNat + 3) % 2 ^ 64 := hnat 3
  constructor
  · intro h
    obtain ⟨version, _, hread, h⟩ := Action.ok_of_bind h
    obtain ⟨hroom, rfl, hversion⟩ := Target.readU8_eq_ok_iff.mp hread
    obtain ⟨pointer, _, hread, h⟩ := Action.ok_of_bind h
    obtain ⟨hroomOne, rfl, hpointer⟩ := Target.readU8_eq_ok_iff.mp hread
    rw [htwo] at h
    obtain ⟨count, _, hread, h⟩ := Action.ok_of_bind h
    obtain ⟨hroomTwo, rfl, hcount⟩ := Target.readU8_eq_ok_iff.mp hread
    rw [hthree] at h
    obtain ⟨table, _, hread, h⟩ := Action.ok_of_bind h
    obtain ⟨hroomThree, rfl, htable⟩ := Target.readU8_eq_ok_iff.mp hread
    cases h
    exact ⟨by omega, hfour, hversion, hpointer, hcount, htable⟩
  · rintro ⟨hroom, rfl, hversion, hpointer, hcount, htable⟩
    have hbyte {pos next : UInt64} {byte : UInt8} (hnext : pos + 1 = next)
        (hpos : pos.toNat + 1 < 2 ^ 64) (h : target.readByte pos = .ok byte) :
        target.readU8 pos = .ok byte next :=
      Target.readU8_eq_ok_iff.mpr ⟨hpos, hnext.symm, h⟩
    unfold readTableHeader
    rw [Action.bind_eq_of_ok (hbyte rfl (by omega) hversion),
      Action.bind_eq_of_ok (hbyte htwo (by omega) hpointer),
      Action.bind_eq_of_ok (hbyte hthree (by omega) hcount),
      Action.bind_eq_of_ok (hbyte hfour (by omega) htable)]
    rfl

/-- Where the header at `hdr` has the encodings of the count and of the table. -/
def encodingBytes (hdr : UInt64) : List UInt64 :=
  [hdr + 2, hdr + 3]

theorem mem_encodingBytes (hroom : hdr.toNat + 4 < 2 ^ 64) {addr : UInt64} :
    addr ∈ encodingBytes hdr ↔ addr.toNat = hdr.toNat + 2 ∨ addr.toNat = hdr.toNat + 3 := by
  have htwo : (hdr + 2).toNat = hdr.toNat + 2 := @Target.toNat_add_ofNat hdr 2 (by omega)
  have hthree : (hdr + 3).toNat = hdr.toNat + 3 := @Target.toNat_add_ofNat hdr 3 (by omega)
  rw [encodingBytes, List.mem_pair, ← UInt64.toNat_inj, ← UInt64.toNat_inj, htwo, hthree]

/-- The second image is the first one with both encodings replaced by that of a
pointer left out. -/
structure OmitsTable (full bare : Target) (hdr : UInt64) : Prop where
  outside : full.SameOutside bare (encodingBytes hdr)
  omitted : ∀ addr ∈ encodingBytes hdr, bare.readByte addr = .ok PointerEncoding.omitted.byte

/-- Whatever stands where the header has the two encodings, the pointer to the
chain and all entries of the chain are read as they are. -/
def ReadApart (full : Target) (hdr : UInt64) (header : TableHeader) (rest chain : UInt64)
    (fdes : List Fde) : Prop :=
  ∀ other, full.SameOutside other (encodingBytes hdr) →
    other.readPointer header.framePointerEncoding { data := hdr } (hdr + 4) = .ok chain rest ∧
      Chain other { data := hdr } chain fdes

theorem PointsTo.readPointer (hpoints : PointsTo full hdr header rest chain) :
    hdr.toNat + 4 < 2 ^ 64 ∧
      full.readPointer header.framePointerEncoding { data := hdr } (hdr + 4) = .ok chain rest := by
  obtain ⟨field, hheader, hpointer⟩ := hpoints.reads
  obtain ⟨hroom, rfl, -⟩ := readTableHeader_eq_ok_iff.mp hheader
  exact ⟨hroom, hpointer⟩

/-- The pointer to the chain stands behind both encodings. -/
theorem agreeOn_behind_encodings {other : Target} (hroom : hdr.toNat + 4 < 2 ^ 64)
    (hother : full.SameOutside other (encodingBytes hdr)) (stop : UInt64) :
    full.AgreeOn other (hdr + 4) stop := by
  intro addr hlo _
  have hfour : (hdr + 4).toNat = hdr.toNat + 4 := @Target.toNat_add_ofNat hdr 4 hroom
  rw [UInt64.le_iff_toNat_le, hfour] at hlo
  refine (hother.readByte addr ?_).symm
  rw [mem_encodingBytes hroom]
  omega

theorem readPointer_behind_encodings {other : Target} (hsmall : full.arch.addressSize < 256)
    (hpoints : PointsTo full hdr header rest chain)
    (hdirect : header.framePointerEncoding.isIndirect = false)
    (hother : full.SameOutside other (encodingBytes hdr)) :
    other.readPointer header.framePointerEncoding { data := hdr } (hdr + 4) = .ok chain rest := by
  obtain ⟨hroom, hpointer⟩ := hpoints.readPointer
  have harch : full.SameArch other := ⟨hother.arch_eq.symm, Nat.lt_trans hsmall (by decide)⟩
  have hbehind : full.AgreeBehind other header.framePointerEncoding { data := hdr } rest
      (hdr + 4) := by
    intro format value next base pointer _ _ _ _ _ _ hindirect
    rw [hdirect] at hindirect
    cases hindirect
  exact (Target.readPointer_echoes harch hbehind (agreeOn_behind_encodings hroom hother rest)
    chain rest hpointer).2 (UInt64.le_refl rest)

/-- A direct pointer is read from behind the encodings, and what can be read
without their words does not depend on them. -/
theorem readApart_of_without (hsmall : full.arch.addressSize < 256)
    (hpoints : PointsTo full hdr header rest chain)
    (hdirect : header.framePointerEncoding.isIndirect = false)
    (hchain : Chain (full.without (encodingBytes hdr)) { data := hdr } chain fdes) :
    ReadApart full hdr header rest chain fdes := fun _ hother =>
  ⟨readPointer_behind_encodings hsmall hpoints hdirect hother,
    hchain.of_part hother.partOf_without⟩

/-! ## Looking up an address -/

theorem PointsTo.withoutTable (hpoints : PointsTo full hdr header rest chain)
    (homits : OmitsTable full bare hdr) (hapart : ReadApart full hdr header rest chain fdes) :
    PointsTo bare hdr header.withoutTable rest chain := by
  obtain ⟨field, hheader, -⟩ := hpoints.reads
  obtain ⟨hroom, rfl, hversion, hpointer, -, -⟩ := readTableHeader_eq_ok_iff.mp hheader
  have hone : (hdr + 1).toNat = hdr.toNat + 1 := @Target.toNat_add_ofNat hdr 1 (by omega)
  have hshown : hdr ∉ encodingBytes hdr ∧ hdr + 1 ∉ encodingBytes hdr := by
    rw [mem_encodingBytes hroom, mem_encodingBytes hroom]
    omega
  refine ⟨hpoints.version, hdr + 4, ?_, (hapart bare homits.outside).1⟩
  exact readTableHeader_eq_ok_iff.mpr ⟨hroom, rfl,
    (homits.outside.readByte _ hshown.1).trans hversion,
    (homits.outside.readByte _ hshown.2).trans hpointer, homits.omitted _ (by simp [encodingBytes]),
    homits.omitted _ (by simp [encodingBytes])⟩

theorem PointsTo.scan_chain (hpoints : PointsTo full hdr header rest chain)
    (hchain : Chain full { data := hdr } chain fdes)
    (homitted : header.countEncoding.isOmitted || header.tableEncoding.isOmitted) (ip : UInt64) :
    findProcInHeader full hdr ip =
      (covering fdes ip).map (·.procInfo .ehFrame { data := hdr }) := by
  rw [hpoints.scan homitted, searchSection_eq_covering hchain]

theorem PointsTo.lookUp_chain (hpoints : PointsTo full hdr header rest chain)
    (hchain : Chain full { data := hdr } chain fdes)
    (htable : HasTable full hdr header rest table)
    (hsmall : full.arch.addressSize < 256) (hlists : table.Lists full listed)
    (hperm : listed.Perm fdes) (hdisjoint : fdes.Pairwise Fde.Disjoint) (ip : UInt64) :
    findProcInHeader full hdr ip =
      (covering fdes ip).map (·.procInfo .ehFrame { data := hdr }) := by
  have hparse : ∀ fde ∈ listed, parseFde full fde.address .ehFrame table.bases = .ok fde := by
    intro fde hmem
    rw [htable.bases]
    exact hchain.parse (hperm.mem_iff.mp hmem)
  have hlisted := pairwise_disjoint_of_perm hperm hdisjoint
  rw [hpoints.lookUp htable hsmall hlists,
    SearchTable.findFde_eq_covering hlists hparse hlisted, covering_perm hperm hdisjoint]

/-- The table of a header lists the FDEs of its chain, and in a second image both
encodings are replaced, so that the header has no table.  If what stands in these
two bytes makes no difference to the chain, looking up any address through either
header gives the procedure of the chain that holds it.  It makes none where the
pointer to the chain is direct and the chain can be read without the words that
hold the two bytes. -/
theorem findProcInHeader_withoutTable
    (hsmall : full.arch.addressSize < 256)
    (hpoints : PointsTo full hdr header rest chain)
    (hchain : Chain full { data := hdr } chain fdes)
    (htable : HasTable full hdr header rest table)
    (hlists : table.Lists full listed) (hperm : listed.Perm fdes)
    (hdisjoint : fdes.Pairwise Fde.Disjoint) (homits : OmitsTable full bare hdr) :
    (ReadApart full hdr header rest chain fdes → ∀ ip,
      findProcInHeader full hdr ip = findProcInHeader bare hdr ip ∧
        findProcInHeader full hdr ip =
          match fdes.find? (·.contains ip) with
          | some fde => .ok (fde.procInfo .ehFrame { data := hdr })
          | none => .error (.noInfo ip)) ∧
    (header.framePointerEncoding.isIndirect = false →
      Chain (full.without (encodingBytes hdr)) { data := hdr } chain fdes →
        ReadApart full hdr header rest chain fdes) := by
  refine ⟨fun hapart ip => ?_, readApart_of_without hsmall hpoints⟩
  have hlookUp := hpoints.lookUp_chain hchain htable hsmall hlists hperm hdisjoint ip
  have hscan := (hpoints.withoutTable homits hapart).scan_chain (hapart bare homits.outside).2
    rfl ip
  refine ⟨hlookUp.trans hscan.symm, hlookUp.trans ?_⟩
  unfold covering
  cases fdes.find? (·.contains ip) <;> rfl

/-! ## Two functions -/

/-- An image of 32-bit words that begins at `0x1000`. -/
def imageTarget (words : List UInt64) : Target where
  arch := .x86
  loadWord addr :=
    match words[((addr - 0x1000) / 4).toNat]? with
    | some word => .ok word
    | none => .error (.unreadable addr)
  loadReg _ := .ok 0
  loadFpReg reg := .error (.badRegister (UInt64.ofNat reg))

theorem loadWord_imageTarget_cons {first second : UInt64} (rest : List UInt64) {addr : UInt64}
    (haligned : addr.toNat % 4 = 0) (h : addr ≠ 0x1000) :
    (imageTarget (first :: rest)).loadWord addr = (imageTarget (second :: rest)).loadWord addr := by
  have hindex : ((addr - 0x1000) / 4).toNat = (2 ^ 64 - 0x1000 + addr.toNat) % 2 ^ 64 / 4 := by
    rw [UInt64.toNat_div, UInt64.toNat_sub]
    rfl
  have hnat : addr.toNat ≠ 0x1000 := fun hsame => h (UInt64.toNat_inj.mp hsame)
  have hlt := addr.toNat_lt
  obtain ⟨index, hsucc⟩ : ∃ index, ((addr - 0x1000) / 4).toNat = index + 1 :=
    ⟨_, (Nat.succ_pred_eq_of_pos (by omega)).symm⟩
  simp only [imageTarget, hsucc, List.getElem?_cons_succ]

theorem readByte_imageTarget (words : List UInt64) (addr : UInt64) :
    (imageTarget words).readByte addr =
      ((imageTarget words).loadWord (alignDown addr 4)).map fun word =>
        ((word &&& Arch.x86.wordMask) >>> ((addr - alignDown addr 4) * 8)).toUInt8 := by
  change (do
    let word ← (do
      let word ← (imageTarget words).loadWord (alignDown addr 4)
      return word &&& Arch.x86.wordMask)
    return (word >>> ((addr - alignDown addr 4) * 8)).toUInt8) = _
  cases (imageTarget words).loadWord (alignDown addr 4) <;> rfl

/-- The bytes of the first word of an image. -/
theorem readByte_first (word : UInt64) (rest : List UInt64) {addr : UInt64}
    (h : alignDown addr 4 = 0x1000) :
    (imageTarget (word :: rest)).readByte addr =
      .ok ((word &&& Arch.x86.wordMask) >>> ((addr - 0x1000) * 8)).toUInt8 := by
  have hfirst : (imageTarget (word :: rest)).loadWord 0x1000 = .ok word := by simp [imageTarget]
  rw [readByte_imageTarget, h, hfirst]
  rfl

/-- The image of a header at `0x1000`, with and without its table. -/
theorem omitsTable_imageTarget (rest : List UInt64) :
    OmitsTable (imageTarget (0x3b031b01 :: rest)) (imageTarget (0xffff1b01 :: rest)) 0x1000 := by
  refine ⟨⟨rfl, fun addr hshown => ?_⟩, fun addr hmem => ?_⟩
  · have hdown : (alignDown addr 4).toNat = addr.toNat - addr.toNat % 4 := toNat_alignDown addr 4
    by_cases hfirst : alignDown addr 4 = 0x1000
    · have hother : addr.toNat ≠ 0x1002 ∧ addr.toNat ≠ 0x1003 :=
        not_or.mp (mt (mem_encodingBytes (show (0x1000 : UInt64).toNat + 4 < 2 ^ 64 by decide)).mpr
          hshown)
      have hstart : (alignDown addr 4).toNat = 0x1000 := by rw [hfirst]; rfl
      rw [readByte_first _ _ hfirst, readByte_first _ _ hfirst]
      have hcases : addr.toNat = 0x1000 ∨ addr.toNat = 0x1001 := by omega
      rcases hcases with hzero | hone
      · obtain rfl : addr = 0x1000 := UInt64.toNat_inj.mp hzero
        decide
      · obtain rfl : addr = 0x1001 := UInt64.toNat_inj.mp hone
        decide
    · rw [readByte_imageTarget, readByte_imageTarget,
        loadWord_imageTarget_cons rest (by omega) hfirst]
  · rcases List.mem_pair.mp hmem with rfl | rfl
    · exact readByte_first _ _ (by decide)
    · exact readByte_first _ _ (by decide)

/-- A header with the given encodings of the count and of the table, a table
of two pairs, and the chain of their FDEs. -/
def twoFunctions (encodings : UInt64) : List UInt64 :=
  [encodings, 0x18, 2, 0x2000, 0x3c, 0x3000, 0x2c,
    0x0c, 0, 0x78010001, 0x08,
    0x0c, 0x14, 0x4000, 0x20,
    0x0c, 0x24, 0x3000, 0x10,
    0]

def twoFunctionsTarget (encodings : UInt64) : Target :=
  imageTarget (twoFunctions encodings)

def sharedCie : Cie where
  address := 0x101c
  version := 1
  augmentation := .none
  codeAlign := 1
  dataAlign := -8
  returnAddress := 8
  program := ⟨0x1029, 0x102c⟩

def laterFunction : Fde where
  address := 0x102c
  cie := sharedCie
  start := 0x4000
  stop := 0x4020
  lsda := 0
  program := ⟨0x103c, 0x103c⟩

def earlierFunction : Fde where
  address := 0x103c
  cie := sharedCie
  start := 0x3000
  stop := 0x3010
  lsda := 0
  program := ⟨0x104c, 0x104c⟩

def twoFunctionsHeader : TableHeader where
  version := 1
  framePointerEncoding := ⟨0x1b⟩
  countEncoding := ⟨0x03⟩
  tableEncoding := ⟨0x3b⟩

def twoFunctionsTable : SearchTable where
  encoding := ⟨0x3b⟩
  bases := { data := 0x1000 }
  start := 0x100c
  halfSize := 4
  count := 2

theorem chain_twoFunctions :
    Chain ((twoFunctionsTarget 0x3b031b01).without (encodingBytes 0x1000)) { data := 0x1000 }
      0x101c [laterFunction, earlierFunction] := by
  let part := (twoFunctionsTarget 0x3b031b01).without (encodingBytes 0x1000)
  have hcie : entryHeader part 0x101c = .ok ⟨0x1020, 0, false, 0x1024, 0x102c⟩ := by cbv
  have hlater : entryHeader part 0x102c = .ok ⟨0x1030, 0x14, false, 0x1034, 0x103c⟩ := by cbv
  have hearlier : entryHeader part 0x103c = .ok ⟨0x1040, 0x24, false, 0x1044, 0x104c⟩ := by cbv
  refine .cie hcie rfl (.fde hlater rfl ?_ (.fde hearlier rfl ?_ (.stop ?_)))
  · cbv
  · cbv
  · cbv

theorem pointsTo_twoFunctions :
    PointsTo (twoFunctionsTarget 0x3b031b01) 0x1000 twoFunctionsHeader 0x1008 0x101c :=
  ⟨rfl, 0x1004, by cbv, by cbv⟩

theorem hasTable_twoFunctions :
    HasTable (twoFunctionsTarget 0x3b031b01) 0x1000 twoFunctionsHeader 0x1008 twoFunctionsTable :=
  ⟨by decide, by cbv, ⟨4, by cbv, rfl⟩, rfl, rfl⟩

theorem lists_twoFunctions :
    twoFunctionsTable.Lists (twoFunctionsTarget 0x3b031b01) [earlierFunction, laterFunction] := by
  have hindex : ∀ i < 2, i = 0 ∨ i = 1 := by omega
  refine ⟨rfl, by decide, ?_, ?_, by simp [earlierFunction, laterFunction]⟩
  · intro i hi
    obtain rfl | rfl := hindex i hi
    · cbv
    · cbv
  · intro i hi
    obtain rfl | rfl := hindex i hi
    · cbv
    · cbv

theorem disjoint_twoFunctions : [laterFunction, earlierFunction].Pairwise Fde.Disjoint := by
  refine .cons ?_ (List.pairwise_singleton _ _)
  intro other hother ip hboth
  obtain rfl := List.mem_singleton.mp hother
  have hlater := Fde.contains_iff.mp hboth.1
  have hearlier := Fde.contains_iff.mp hboth.2
  exact absurd (UInt64.lt_of_le_of_lt hlater.1 hearlier.2) (by decide)

theorem findProcInHeader_twoFunctions :
    (∃ rest chain,
      PointsTo (twoFunctionsTarget 0x3b031b01) 0x1000 twoFunctionsHeader rest chain ∧
      ReadApart (twoFunctionsTarget 0x3b031b01) 0x1000 twoFunctionsHeader rest chain
        [laterFunction, earlierFunction]) ∧
      findProcInHeader (twoFunctionsTarget 0x3b031b01) 0x1000 0x300f =
        findProcInHeader (twoFunctionsTarget 0xffff1b01) 0x1000 0x300f ∧
      findProcInHeader (twoFunctionsTarget 0x3b031b01) 0x1000 0x300f =
        .ok (earlierFunction.procInfo .ehFrame { data := 0x1000 }) := by
  have hchain : Chain (twoFunctionsTarget 0x3b031b01) { data := 0x1000 } 0x101c
      [laterFunction, earlierFunction] :=
    chain_twoFunctions.of_part (Target.SameOutside.refl _ _).partOf_without
  obtain ⟨hsame, hapart⟩ := findProcInHeader_withoutTable (by decide) pointsTo_twoFunctions hchain
    hasTable_twoFunctions lists_twoFunctions (.swap _ _ []) disjoint_twoFunctions
    (omitsTable_imageTarget _)
  have hread := hapart rfl chain_twoFunctions
  exact ⟨⟨0x1008, 0x101c, pointsTo_twoFunctions, hread⟩, hsame hread 0x300f⟩

/-! ## A pointer stored in the header -/

/-- A header with the given encodings of the count and of the table, a table of
one pair, and the chain: a CIE that has the addresses of language data stored
elsewhere, and an FDE that has it stored where the header begins. -/
def storedInHeader (encodings : UInt64) : List UInt64 :=
  [encodings, 0x10, 1, 0x2000, 0x28,
    0x10, 0, 0x004c7a01, 0x01087801, 0x80,
    0x14, 0x18, 0x3000, 0x10, 0x00100004, 0,
    0]

def storedInHeaderTarget (encodings : UInt64) : Target :=
  imageTarget (storedInHeader encodings)

def storedInHeaderFde (lsda : UInt64) : Fde where
  address := 0x1028
  cie :=
    { address := 0x1014
      version := 1
      augmentation := { Augmentation.none with hasData := true, lsdaEncoding := ⟨0x80⟩ }
      codeAlign := 1
      dataAlign := -8
      returnAddress := 8
      program := ⟨0x1025, 0x1028⟩ }
  start := 0x3000
  stop := 0x3010
  lsda := lsda
  program := ⟨0x103d, 0x1040⟩

def storedInHeaderTable : SearchTable :=
  { twoFunctionsTable with count := 1 }

theorem chain_storedInHeader :
    Chain (storedInHeaderTarget 0x3b031b01) { data := 0x1000 } 0x1014
      [storedInHeaderFde 0x3b031b01] := by
  have hcie : entryHeader (storedInHeaderTarget 0x3b031b01) 0x1014 =
      .ok ⟨0x1018, 0, false, 0x101c, 0x1028⟩ := by cbv
  have hfde : entryHeader (storedInHeaderTarget 0x3b031b01) 0x1028 =
      .ok ⟨0x102c, 0x18, false, 0x1030, 0x1040⟩ := by cbv
  refine .cie hcie rfl (.fde hfde rfl ?_ (.stop ?_))
  · cbv
  · cbv

theorem lists_storedInHeader :
    storedInHeaderTable.Lists (storedInHeaderTarget 0x3b031b01) [storedInHeaderFde 0x3b031b01] := by
  have hindex : ∀ i < 1, i = 0 := by omega
  refine ⟨rfl, by decide, ?_, ?_, List.pairwise_singleton _ _⟩
  · intro i hi
    obtain rfl := hindex i hi
    cbv
  · intro i hi
    obtain rfl := hindex i hi
    cbv

/-- The header is in order and so are its table and its chain, but the address of
the language data is the first word of the header, with the two encodings in it. -/
theorem findProcInHeader_storedInHeader :
    let full := storedInHeaderTarget 0x3b031b01
    let bare := storedInHeaderTarget 0xffff1b01
    (full.arch.addressSize < 256 ∧ PointsTo full 0x1000 twoFunctionsHeader 0x1008 0x1014 ∧
      Chain full { data := 0x1000 } 0x1014 [storedInHeaderFde 0x3b031b01] ∧
      HasTable full 0x1000 twoFunctionsHeader 0x1008 storedInHeaderTable ∧
      storedInHeaderTable.Lists full [storedInHeaderFde 0x3b031b01] ∧
      [storedInHeaderFde 0x3b031b01].Pairwise Fde.Disjoint ∧ OmitsTable full bare 0x1000) ∧
    findProcInHeader full 0x1000 0x3000 =
      .ok ((storedInHeaderFde 0x3b031b01).procInfo .ehFrame { data := 0x1000 }) ∧
    findProcInHeader bare 0x1000 0x3000 =
      .ok ((storedInHeaderFde 0xffff1b01).procInfo .ehFrame { data := 0x1000 }) ∧
    findProcInHeader full 0x1000 0x3000 ≠ findProcInHeader bare 0x1000 0x3000 := by
  have hfull : findProcInHeader (storedInHeaderTarget 0x3b031b01) 0x1000 0x3000 =
      .ok ((storedInHeaderFde 0x3b031b01).procInfo .ehFrame { data := 0x1000 }) := by cbv
  have hbare : findProcInHeader (storedInHeaderTarget 0xffff1b01) 0x1000 0x3000 =
      .ok ((storedInHeaderFde 0xffff1b01).procInfo .ehFrame { data := 0x1000 }) := by cbv
  have hpoints : PointsTo (storedInHeaderTarget 0x3b031b01) 0x1000 twoFunctionsHeader 0x1008
      0x1014 := ⟨rfl, 0x1004, by cbv, by cbv⟩
  have htable : HasTable (storedInHeaderTarget 0x3b031b01) 0x1000 twoFunctionsHeader 0x1008
      storedInHeaderTable := ⟨by decide, by cbv, ⟨4, by cbv, rfl⟩, rfl, rfl⟩
  refine ⟨⟨by decide, hpoints, chain_storedInHeader, htable, lists_storedInHeader,
    List.pairwise_singleton _ _, omitsTable_imageTarget _⟩, hfull, hbare, ?_⟩
  rw [hfull, hbare]
  decide

end Cfi
end StackWalk
