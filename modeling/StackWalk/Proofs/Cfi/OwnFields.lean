import Mathlib
import StackWalk.Arch.Shipped
import StackWalk.Proofs.Cfi.EntryLayout
import StackWalk.Proofs.Echo

/-!
# The bytes of an entry

What an entry says in its fields stands in the entry: other memory with the
same bytes there says the same.  What it says in its augmentation data stands
in the data only if the reading ends there, which nothing makes sure of: the
next byte of the program is read like one of the data.
-/

namespace StackWalk

variable {first second : Target} {stop pos : UInt64}

/-- Any byte from `lo` on taken for an encoding, the pointer behind it is found
at the same place in both memories. -/
def Target.SameBehind (first second : Target) (bases : PointerBases) (lo stop : UInt64) : Prop :=
  ∀ pos byte next, lo ≤ pos → first.readU8 pos = .ok byte next →
    first.AgreeBehind second ⟨byte⟩ bases stop next

namespace Cfi

variable {bases : PointerBases} {frameSection : FrameSection} {address : UInt64}

/-! ## Headers and fields -/

theorem readEntryLength_echoes (hkind : first.SameKind second) (stop pos : UInt64) :
    EchoesAt first second stop pos (readEntryLength first) (readEntryLength second) := by
  refine .bind (Target.readUInt_echoes hkind.sameArch (by decide) stop pos) fun short next _ => ?_
  split
  · exact .bind (Target.readUInt_echoes hkind.sameArch (by decide) stop next) fun long _ _ => .pure _
  · exact .pure _

theorem HeaderLies.echo (hkind : first.SameKind second) {header : EntryHeader} {length : UInt64}
    (hlies : HeaderLies first address header length)
    (hagree : first.AgreeOn second address stop) (hinside : header.body ≤ stop) :
    HeaderLies second address header length := by
  obtain ⟨hlength, hsame⟩ := readEntryLength_echoes hkind stop address hagree _ _ hlies.lengthField
  have hwide : (if header.is64 then 8 else 4) < 2 ^ 64 := by split <;> decide
  obtain ⟨hid, hsameId⟩ :=
    Target.readUInt_echoes hkind.sameArch hwide stop _ (hagree.mono hlength) _ _ hlies.idField
  exact { hlies with
    lengthField := hsame (UInt64.le_trans hid hinside)
    idField := hsameId hinside }

theorem readAugmentationString_echoes (first second : Target) (stop pos : UInt64) (room : Nat) :
    EchoesAt first second stop pos (readAugmentationString first room)
      (readAugmentationString second room) := by
  induction room generalizing pos with
  | zero =>
      refine .bind (Target.readU8_echoes first second stop pos) fun byte next _ => ?_
      split
      · exact .pure _
      · exact .throw _ _
  | succ room ih =>
      refine .bind (Target.readU8_echoes first second stop pos) fun byte next _ => ?_
      split
      · exact .pure _
      · exact .bind (ih next) fun rest _ _ => .pure _

theorem readSizes_echoes (hkind : first.SameKind second) (version : UInt8) (stop pos : UInt64) :
    EchoesAt first second stop pos (readSizes first version) (readSizes second version) := by
  unfold readSizes
  split
  · refine .bind (Target.readU8_echoes first second stop pos) fun size next _ =>
      .bind (Target.readU8_echoes first second stop next) fun segment last _ => ?_
    rw [← hkind.arch_eq]
    split
    · exact .throw _ _
    · exact .pure _
  · exact .pure _

theorem readReturnAddress_echoes (first second : Target) (version : UInt8) (stop pos : UInt64) :
    EchoesAt first second stop pos (readReturnAddress first version)
      (readReturnAddress second version) := by
  unfold readReturnAddress
  split
  · exact .map _ (Target.readU8_echoes first second stop pos)
  · exact Target.readULeb128_echoes first second stop pos

theorem readCieFields_echoes (hkind : first.SameKind second) (stop pos : UInt64) :
    EchoesAt first second stop pos (readCieFields first) (readCieFields second) := by
  refine .bind (Target.readU8_echoes first second stop pos) fun version next _ => ?_
  split
  · exact .throw _ _
  · refine .bind (readAugmentationString_echoes first second stop next _) fun letters _ _ =>
      .bind (readSizes_echoes hkind version stop _) fun _ _ _ =>
      .bind (Target.readULeb128_echoes first second stop _) fun codeAlign _ _ =>
      .bind (Target.readSLeb128_echoes first second stop _) fun dataAlign _ _ =>
      .bind (readReturnAddress_echoes first second version stop _) fun returnAddress _ _ =>
      .lift_bind fun _ _ => ?_
    rw [← hkind.arch_eq]
    exact .lift_bind fun column _ => .pure _

theorem isIndirect_formatOnly (encoding : PointerEncoding) :
    encoding.formatOnly.isIndirect = false := by
  unfold PointerEncoding.isIndirect PointerEncoding.formatOnly
  rw [UInt8.and_assoc, show (0x0f &&& 0x80 : UInt8) = 0 from rfl]
  simp

theorem readFdeFields_echoes (hkind : first.SameKind second) {encoding : PointerEncoding}
    (hbehind : first.AgreeBehind second encoding bases stop pos) :
    EchoesAt first second stop pos (readFdeFields first bases encoding)
      (readFdeFields second bases encoding) := by
  refine .bind (Target.readPointer_echoes hkind.sameArch hbehind) fun start next _ =>
    .bind (Target.readPointer_echoes hkind.sameArch ?_) fun length _ _ => .pure _
  -- A length is never behind a pointer, whatever the encoding.
  rintro _ _ _ _ _ - - - - - - hindirect
  rw [isIndirect_formatOnly] at hindirect
  cases hindirect

/-! ## Augmentation data -/

theorem DataAt.echo {hasData : Bool} {data : DataSpan} (hplaced : DataAt first hasData pos data)
    (hagree : first.AgreeOn second pos data.start) : DataAt second hasData pos data := by
  unfold DataAt at hplaced ⊢
  split at hplaced
  · rw [if_pos ‹_›]
    exact (Target.readULeb128_echoes first second _ pos hagree _ _ hplaced).2 (UInt64.le_refl _)
  · rw [if_neg ‹_›]
    exact hplaced

theorem readAugmentationData_echoes (hkind : first.SameKind second) {lo : UInt64}
    (hbehind : first.SameBehind second bases lo stop) (letters : List UInt8)
    (augmentation : Augmentation) (hlo : lo ≤ pos) :
    EchoesAt first second stop pos (readAugmentationData first bases letters augmentation)
      (readAugmentationData second bases letters augmentation) := by
  have hahead {α : Type} {scan : Scan α} (hscan : scan.MovesForward) {pos next : UInt64} {a : α}
      (hlo : lo ≤ pos) (hrun : scan pos = .ok a next) : lo ≤ next :=
    UInt64.le_trans hlo (UInt64.le_iff_toNat_le.mpr (hscan pos a next hrun))
  have byte := Target.readU8_echoes first second stop
  induction letters generalizing augmentation pos with
  | nil => exact .pure _
  | cons letter rest ih =>
      unfold readAugmentationData
      split
      · exact .bind (byte pos) fun encoding next hread =>
          ih _ (hahead first.readU8_movesForward hlo hread)
      · exact .bind (byte pos) fun encoding next hread =>
          ih _ (hahead first.readU8_movesForward hlo hread)
      · refine .bind (byte pos) fun encoding next hread => ?_
        have hnext := hahead first.readU8_movesForward hlo hread
        exact .bind (Target.readPointer_echoes hkind.sameArch (hbehind pos encoding next hlo hread))
          fun personality last hpointer =>
            ih _ (hahead (first.readPointer_movesForward _ _) hnext hpointer)
      · exact ih _ hlo
      · exact .pure _

theorem readLetters_echoes (hkind : first.SameKind second) (letters : List UInt8)
    (hbehind : first.SameBehind second bases pos stop) :
    EchoesAt first second stop pos (readLetters first bases letters)
      (readLetters second bases letters) := by
  unfold readLetters
  split
  · exact readAugmentationData_echoes hkind hbehind _ _ (UInt64.le_refl _)
  · split
    · exact .pure _
    · exact .throw _ _

theorem readLsdaPointer_echoes (hkind : first.SameKind second) (augmentation : Augmentation)
    (start : UInt64)
    (hbehind : first.AgreeBehind second augmentation.lsdaEncoding { bases with function := start }
      stop pos) :
    EchoesAt first second stop pos (readLsdaPointer first bases augmentation start)
      (readLsdaPointer second bases augmentation start) := by
  unfold readLsdaPointer
  split
  · exact Target.readPointer_echoes hkind.sameArch hbehind
  · exact .pure _

/-! ## Whole entries -/

/-- What is said of a CIE by memory with the same bytes in front of its data,
and by memory with the same bytes in the data. -/
structure CieEchoes (first second : Target) (frameSection : FrameSection) (bases : PointerBases)
    (header : EntryHeader) (size : UInt64) (cie : Cie) (letters : List UInt8)
    (fieldsStop : UInt64) (data : DataSpan) (dataRead : UInt64) : Prop where
  lies : first.AgreeOn second cie.address data.start → HeaderLies second cie.address header size
  fields : first.AgreeOn second cie.address data.start →
    readCieFields second header.body = .ok (cie.fields letters) fieldsStop
  placed : first.AgreeOn second cie.address data.start →
    DataAt second (isPrefixed letters) fieldsStop data
  augmentation : dataRead ≤ cie.program.start → first.AgreeOn second data.start cie.program.start →
    first.SameBehind second bases data.start cie.program.start →
    readLetters second bases letters data.start = .ok cie.augmentation dataRead
  whole : dataRead ≤ cie.program.start → first.AgreeOn second cie.address cie.program.start →
    first.SameBehind second bases data.start cie.program.start →
    parseCie second cie.address frameSection bases = .ok cie

/-- What is said of an FDE by memory with the same bytes in front of its data,
and by memory with the same bytes in the data. -/
structure FdeEchoes (first second : Target) (frameSection : FrameSection) (bases : PointerBases)
    (header : EntryHeader) (size : UInt64) (fde : Fde) (length fieldsStop : UInt64)
    (data : DataSpan) (dataRead : UInt64) : Prop where
  lies : first.AgreeOn second fde.address data.start → HeaderLies second fde.address header size
  fields : first.AgreeOn second fde.address data.start →
    first.AgreeBehind second fde.cie.augmentation.fdeEncoding bases data.start header.body →
    readFdeFields second bases fde.cie.augmentation.fdeEncoding header.body =
      .ok (fde.start, length) fieldsStop
  placed : first.AgreeOn second fde.address data.start →
    DataAt second fde.cie.augmentation.hasData fieldsStop data
  lsda : dataRead ≤ fde.program.start → first.AgreeOn second data.start fde.program.start →
    first.AgreeBehind second fde.cie.augmentation.lsdaEncoding
      { bases with function := fde.start } fde.program.start data.start →
    readLsdaPointer second bases fde.cie.augmentation fde.start data.start =
      .ok fde.lsda dataRead
  whole : dataRead ≤ fde.program.start → first.AgreeOn second fde.address fde.program.start →
    first.AgreeBehind second fde.cie.augmentation.fdeEncoding bases data.start header.body →
    first.AgreeBehind second fde.cie.augmentation.lsdaEncoding
      { bases with function := fde.start } fde.program.start data.start →
    parseCie second (header.cieAddress frameSection) frameSection bases = .ok fde.cie →
    parseFde second fde.address frameSection bases = .ok fde

theorem InOrder.le_body {header : EntryHeader} {fieldsStop : UInt64} {data : DataSpan}
    {program : Span} (horder : InOrder address header fieldsStop data program) :
    address ≤ header.body := by
  rw [UInt64.le_iff_toNat_le, horder.body]
  omega

theorem InOrder.dataStart_le {header : EntryHeader} {fieldsStop : UInt64} {data : DataSpan}
    {program : Span} (horder : InOrder address header fieldsStop data program) :
    data.start ≤ program.start := by
  rw [UInt64.le_iff_toNat_le, ← horder.dataStop]
  exact Nat.le_add_right _ _

theorem CieLies.echoes (hkind : first.SameKind second) {header : EntryHeader} {size : UInt64}
    {cie : Cie} {letters : List UInt8} {fieldsStop : UInt64} {data : DataSpan} {dataRead : UInt64}
    (hheader : HeaderLies first cie.address header size) (hcie : header.isCie frameSection = true)
    (hlies : CieLies first bases header cie letters fieldsStop data dataRead) :
    CieEchoes first second frameSection bases header size cie letters fieldsStop data dataRead := by
  have horder := hlies.inOrder hheader
  have hbody : header.body ≤ data.start := UInt64.le_trans horder.fields horder.dataStart
  have hheaderEcho (hagree : first.AgreeOn second cie.address data.start) :
      HeaderLies second cie.address header size := hheader.echo hkind hagree hbody
  have hfields (hagree : first.AgreeOn second cie.address data.start) :
      readCieFields second header.body = .ok (cie.fields letters) fieldsStop :=
    (readCieFields_echoes hkind _ _ (hagree.mono horder.le_body) _ _ hlies.fields).2
      horder.dataStart
  have hplaced (hagree : first.AgreeOn second cie.address data.start) :
      DataAt second (isPrefixed letters) fieldsStop data :=
    hlies.rest.placed.echo (hagree.mono (UInt64.le_trans horder.le_body horder.fields))
  have haugmentation (hread : dataRead ≤ cie.program.start)
      (hagree : first.AgreeOn second data.start cie.program.start)
      (hbehind : first.SameBehind second bases data.start cie.program.start) :
      readLetters second bases letters data.start = .ok cie.augmentation dataRead :=
    (readLetters_echoes hkind letters hbehind hagree _ _ hlies.augmentation).2 hread
  refine ⟨hheaderEcho, hfields, hplaced, haugmentation, fun hread hagree hbehind => ?_⟩
  have hfront := hagree.mono_stop horder.dataStart_le
  have hdata := hagree.mono (UInt64.le_trans horder.le_body hbody)
  exact parseCie_eq_ok_iff.mpr ⟨rfl, header, letters, fieldsStop, data, dataRead,
    entryHeader_eq_ok_iff.mpr ⟨size, hheaderEcho hfront⟩, hcie, hfields hfront,
    { hlies.rest with placed := hplaced hfront }, haugmentation hread hdata hbehind⟩

theorem FdeLies.echoes (hkind : first.SameKind second) {header : EntryHeader} {size : UInt64}
    {fde : Fde} {length fieldsStop : UInt64} {data : DataSpan} {dataRead : UInt64}
    (hheader : HeaderLies first fde.address header size)
    (hfde : header.isCie frameSection = false)
    (hlies : FdeLies first bases header fde length fieldsStop data dataRead) :
    FdeEchoes first second frameSection bases header size fde length fieldsStop data dataRead := by
  have horder := hlies.inOrder hheader
  have hbody : header.body ≤ data.start := UInt64.le_trans horder.fields horder.dataStart
  have hheaderEcho (hagree : first.AgreeOn second fde.address data.start) :
      HeaderLies second fde.address header size := hheader.echo hkind hagree hbody
  have hfields (hagree : first.AgreeOn second fde.address data.start)
      (hbehind : first.AgreeBehind second fde.cie.augmentation.fdeEncoding bases data.start
        header.body) :
      readFdeFields second bases fde.cie.augmentation.fdeEncoding header.body =
        .ok (fde.start, length) fieldsStop :=
    (readFdeFields_echoes hkind hbehind (hagree.mono horder.le_body) _ _ hlies.fields).2
      horder.dataStart
  have hplaced (hagree : first.AgreeOn second fde.address data.start) :
      DataAt second fde.cie.augmentation.hasData fieldsStop data :=
    hlies.rest.placed.echo (hagree.mono (UInt64.le_trans horder.le_body horder.fields))
  have hlsda (hread : dataRead ≤ fde.program.start)
      (hagree : first.AgreeOn second data.start fde.program.start)
      (hbehind : first.AgreeBehind second fde.cie.augmentation.lsdaEncoding
        { bases with function := fde.start } fde.program.start data.start) :
      readLsdaPointer second bases fde.cie.augmentation fde.start data.start =
        .ok fde.lsda dataRead :=
    (readLsdaPointer_echoes hkind _ _ hbehind hagree _ _ hlies.lsda).2 hread
  refine ⟨hheaderEcho, hfields, hplaced, hlsda, fun hread hagree hstart hbehind hcie => ?_⟩
  have hfront := hagree.mono_stop horder.dataStart_le
  have hdata := hagree.mono (UInt64.le_trans horder.le_body hbody)
  exact parseFde_eq_ok_iff.mpr ⟨rfl, header, length, fieldsStop, data, dataRead,
    entryHeader_eq_ok_iff.mpr ⟨size, hheaderEcho hfront⟩, hfde, hcie, hfields hfront hstart,
    { hlies.rest with placed := hplaced hfront }, hlsda hread hdata hbehind,
    hkind.arch_eq ▸ hlies.stop, hlies.covers⟩

/-- The parts of an entry stand in order inside it, and its fields and where
its data stands come from what is in front of the data.  What the data says
comes from the data where its reading ends before the program.  Fields and data
that do not fit are malformed. -/
theorem entries_read_own_bytes (hkind : first.SameKind second) (frameSection : FrameSection)
    (bases : PointerBases) (address : UInt64) :
    (∀ cie, parseCie first address frameSection bases = .ok cie →
      ∃ header size letters fieldsStop data dataRead,
        HeaderLies first address header size ∧
        CieLies first bases header cie letters fieldsStop data dataRead ∧
        InOrder address header fieldsStop data cie.program ∧
        CieEchoes first second frameSection bases header size cie letters fieldsStop data
          dataRead) ∧
    (∀ fde, parseFde first address frameSection bases = .ok fde →
      ∃ header size length fieldsStop data dataRead,
        HeaderLies first address header size ∧
        FdeLies first bases header fde length fieldsStop data dataRead ∧
        InOrder address header fieldsStop data fde.program ∧
        FdeEchoes first second frameSection bases header size fde length fieldsStop data
          dataRead) ∧
    (∀ header fields fieldsStop data, entryHeader first address = .ok header →
      header.isCie frameSection = true →
      readCieFields first header.body = .ok fields fieldsStop →
      DataAt first (isPrefixed fields.letters) fieldsStop data →
      header.stop.toNat < data.stop →
      ∃ defect, parseCie first address frameSection bases = .error (.invalidArgument defect)) ∧
    (∀ header cie start length fieldsStop data lsda dataRead,
      entryHeader first address = .ok header → header.isCie frameSection = false →
      parseCie first (header.cieAddress frameSection) frameSection bases = .ok cie →
      readFdeFields first bases cie.augmentation.fdeEncoding header.body =
        .ok (start, length) fieldsStop →
      DataAt first cie.augmentation.hasData fieldsStop data →
      readLsdaPointer first bases cie.augmentation start data.start = .ok lsda dataRead →
      header.stop.toNat < data.stop →
      ∃ defect, parseFde first address frameSection bases = .error (.invalidArgument defect)) := by
  refine ⟨fun cie hparse => ?_, fun fde hparse => ?_,
    fun _ _ _ _ => parseCie_of_overrun, fun _ _ _ _ _ _ _ _ => parseFde_of_overrun⟩
  · obtain ⟨rfl, header, letters, fieldsStop, data, dataRead, hheader, hcie, hlies⟩ :=
      parseCie_eq_ok_iff.mp hparse
    obtain ⟨size, hheader⟩ := entryHeader_eq_ok_iff.mp hheader
    exact ⟨header, size, letters, fieldsStop, data, dataRead, hheader, hlies,
      hlies.inOrder hheader, hlies.echoes hkind hheader hcie⟩
  · obtain ⟨rfl, header, length, fieldsStop, data, dataRead, hheader, hfde, -, hlies⟩ :=
      parseFde_eq_ok_iff.mp hparse
    obtain ⟨size, hheader⟩ := entryHeader_eq_ok_iff.mp hheader
    exact ⟨header, size, length, fieldsStop, data, dataRead, hheader, hlies,
      hlies.inOrder hheader, hlies.echoes hkind hheader hfde⟩

/-! ## A CIE and an FDE -/

/-- A CIE with the augmentation `zR` and an FDE, in 32-bit words.  The last byte
of `columns` is the length of the augmentation data, and the first byte behind
it that of `encoding`. -/
def augmentedEntries (columns encoding : UInt64) : List UInt64 :=
  [0x10, 0, 0x00527a01, columns, encoding,
    0x10, 0x18, 0x3000, 0x10, 0]

def augmentedTarget (columns encoding behind : UInt64) : Target where
  arch := .x86
  loadWord addr :=
    if addr = 0x1028 then
      .ok behind
    else
      match (augmentedEntries columns encoding)[((addr - 0x1000) / 4).toNat]? with
      | some word => .ok word
      | none => .error (.unreadable addr)
  loadReg _ := .ok 0
  loadFpReg reg := .error (.badRegister (UInt64.ofNat reg))

theorem augmentedTarget_agreeOn (columns encoding behind other lo : UInt64) {hi : UInt64}
    (hhi : hi ≤ 0x1028) :
    (augmentedTarget columns encoding behind).AgreeOn (augmentedTarget columns encoding other) lo
      hi := by
  intro addr _ hlt
  -- Only the word at `0x1028` differs, and no byte in front of it is read from there.
  have hbefore : alignDown addr 4 ≠ 0x1028 := by
    intro heq
    have haligned := congrArg UInt64.toNat heq
    rw [toNat_alignDown] at haligned
    have hlt := UInt64.lt_iff_toNat_lt.mp (UInt64.lt_of_lt_of_le hlt hhi)
    have hbound : (0x1028 : UInt64).toNat = 0x1028 := rfl
    omega
  have hword : (augmentedTarget columns encoding behind).readWord (alignDown addr 4) =
      (augmentedTarget columns encoding other).readWord (alignDown addr 4) := by
    simp only [Target.readWord, augmentedTarget, hbefore, if_false]
  exact congrArg (· >>= fun word : UInt64 =>
    .ok (word >>> Target.byteShift .little 4 (addr - alignDown addr 4)).toUInt8) hword

def augmentedCie (length : UInt64) (encoding : PointerEncoding) : Cie where
  address := 0x1000
  version := 1
  augmentation := { Augmentation.none with hasData := true, fdeEncoding := encoding }
  codeAlign := 1
  dataAlign := -8
  returnAddress := 8
  program := ⟨0x1010 + length, 0x1014⟩

def augmentedFde : Fde where
  address := 0x1014
  cie := augmentedCie 1 .absolute
  start := 0x3000
  stop := 0x3010
  lsda := 0
  program := ⟨0x1025, 0x1028⟩

theorem entries_read_own_bytes_augmented :
    (augmentedTarget 0x01087801 0 0).SameKind (augmentedTarget 0x01087801 0 1) ∧
      readCieFields (augmentedTarget 0x01087801 0 1) 0x1008 =
        .ok ((augmentedCie 1 .absolute).fields [0x7a, 0x52]) 0x100f ∧
      parseFde (augmentedTarget 0x01087801 0 1) 0x1014 .ehFrame {} = .ok augmentedFde := by
  have hkind : (augmentedTarget 0x01087801 0 0).SameKind (augmentedTarget 0x01087801 0 1) :=
    ⟨rfl, by decide⟩
  have hagree (lo hi : UInt64) (hhi : hi ≤ 0x1028) :=
    augmentedTarget_agreeOn 0x01087801 0 0 1 lo hhi
  refine ⟨hkind, ?_, ?_⟩
  · obtain ⟨header, size, letters, fieldsStop, data, dataRead, hheader, hlies, horder, hechoes⟩ :=
      (entries_read_own_bytes hkind .ehFrame {} 0x1000).1 (augmentedCie 1 .absolute) (by cbv)
    have hknown : entryHeader (augmentedTarget 0x01087801 0 0) 0x1000 =
        .ok ⟨0x1004, 0, false, 0x1008, 0x1014⟩ := by cbv
    have hfields : readCieFields (augmentedTarget 0x01087801 0 0) 0x1008 =
        .ok ((augmentedCie 1 .absolute).fields [0x7a, 0x52]) 0x100f := by cbv
    obtain rfl := Except.ok.inj (hknown.symm.trans (entryHeader_eq_ok_iff.mpr ⟨size, hheader⟩))
    obtain ⟨hletters, rfl⟩ := EStateM.Result.ok.inj (hfields.symm.trans hlies.fields)
    obtain rfl : [0x7a, 0x52] = letters := congrArg CieFields.letters hletters
    refine hechoes.fields (hagree _ _ (UInt64.le_trans horder.dataStart_le ?_))
    decide
  · obtain ⟨header, size, length, fieldsStop, data, dataRead, hheader, hlies, horder, hechoes⟩ :=
      (entries_read_own_bytes hkind .ehFrame {} 0x1014).2.1 augmentedFde (by cbv)
    have hknown : entryHeader (augmentedTarget 0x01087801 0 0) 0x1014 =
        .ok ⟨0x1018, 0x18, false, 0x101c, 0x1028⟩ := by cbv
    obtain rfl := Except.ok.inj (hknown.symm.trans (entryHeader_eq_ok_iff.mpr ⟨size, hheader⟩))
    have hread : dataRead ≤ augmentedFde.program.start := by
      obtain ⟨-, rfl⟩ := EStateM.Result.ok.inj hlies.lsda
      exact horder.dataStart_le
    refine hechoes.whole hread (hagree _ _ (by decide)) ?_ ?_ (by cbv)
    · rintro _ _ _ _ _ - - - - - - ⟨⟩
    · rintro _ _ _ _ _ ⟨⟩

/-- A CIE whose augmentation data is empty is accepted, and takes the encoding
of its FDEs from its program. -/
theorem encoding_behind_the_data :
    DataAt (augmentedTarget 0x00087801 0x1b 0) true 0x100f ⟨0x1010, 0⟩ ∧
      readLetters (augmentedTarget 0x00087801 0x1b 0) {} [0x7a, 0x52] 0x1010 =
        .ok (augmentedCie 0 ⟨0x1b⟩).augmentation 0x1011 ∧
      parseCie (augmentedTarget 0x00087801 0x1b 0) 0x1000 .ehFrame {} =
        .ok (augmentedCie 0 ⟨0x1b⟩) ∧
      parseCie (augmentedTarget 0x00087801 0x0c 0) 0x1000 .ehFrame {} =
        .ok (augmentedCie 0 ⟨0x0c⟩) := by
  refine ⟨?_, ?_, ?_, ?_⟩
  · unfold DataAt
    cbv
  · cbv
  · cbv
  · cbv

end Cfi
end StackWalk
