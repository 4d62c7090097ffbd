import Mathlib.Tactic
import StackWalk.Cfi.Entry
import StackWalk.Proofs.Action
import StackWalk.Proofs.Leb128
import StackWalk.Proofs.Word

/-!
# How an entry lies in memory

Behind its header an entry has fields, then augmentation data with its length
in front, if it has any, and its program in what is left.  The length says
where the program begins.  Where the reading of the data ends is not looked at.
-/

namespace StackWalk.Cfi

variable {target : Target} {bases : PointerBases} {frameSection : FrameSection}
  {address pos : UInt64} {α : Type}

/-! ## Headers -/

/-- How the header of an entry of `length` bytes lies: the length, the
identifier, and behind it the rest of the entry. -/
structure HeaderLies (target : Target) (address : UInt64) (header : EntryHeader)
    (length : UInt64) : Prop where
  lengthField : readEntryLength target address = .ok (length, header.is64) header.idField
  idField : target.readUInt (if header.is64 then 8 else 4) header.idField =
    .ok header.id header.body
  nonempty : length ≠ 0
  stop : header.stop.toNat = header.idField.toNat + length.toNat
  fits : header.body ≤ header.stop

theorem entryEnd_eq_ok_iff {start length stop : UInt64} :
    entryEnd start length = .ok stop ↔ stop.toNat = start.toNat + length.toNat := by
  unfold entryEnd
  by_cases hfits : start.toNat + length.toNat < 2 ^ 64
  · rw [checkedAdd_of_lt hfits, ← Nat.mod_eq_of_lt hfits, ← UInt64.toNat_add]
    simp only [Except.ok.injEq]
    rw [UInt64.toNat_inj, eq_comm]
  · have hlt := stop.toNat_lt
    rw [checkedAdd_of_not_lt hfits]
    simp only [reduceCtorEq, false_iff]
    omega

theorem readEntryId_eq_ok_iff {length : UInt64} {is64 : Bool} {header : EntryHeader}
    {after : UInt64} :
    readEntryId target length is64 pos = .ok header after ↔
      header.idField = pos ∧ header.is64 = is64 ∧ header.body = after ∧
        target.readUInt (if is64 then 8 else 4) pos = .ok header.id after ∧
        header.stop.toNat = pos.toNat + length.toNat ∧ header.body ≤ header.stop := by
  constructor
  · intro h
    obtain ⟨stop, hstop, h⟩ := Action.lift_bind_apply_eq_ok_iff.mp h
    obtain ⟨id, body, hid, h⟩ := Action.ok_of_bind h
    rw [Action.get_bind_apply] at h
    split at h
    · cases h
    · rename_i hfits
      cases h
      exact ⟨rfl, rfl, rfl, hid, entryEnd_eq_ok_iff.mp hstop, UInt64.not_lt.mp hfits⟩
  · rintro ⟨rfl, rfl, rfl, hid, hstop, hfits⟩
    unfold readEntryId
    rw [Action.get_bind_apply, entryEnd_eq_ok_iff.mpr hstop, Action.lift_ok_bind_apply,
      Action.bind_eq_of_ok hid, Action.get_bind_apply, if_neg (UInt64.not_lt.mpr hfits)]
    rfl

theorem entryHeader_eq_ok_iff {header : EntryHeader} :
    entryHeader target address = .ok header ↔
      ∃ length, HeaderLies target address header length := by
  unfold entryHeader
  rw [Action.answer_eq_ok_iff]
  constructor
  · rintro ⟨after, h⟩
    obtain ⟨⟨length, is64⟩, idField, hlength, h⟩ := Action.ok_of_bind h
    dsimp only at h
    split at h
    · cases h
    · obtain ⟨rfl, rfl, rfl, hid, hstop, hfits⟩ := readEntryId_eq_ok_iff.mp h
      exact ⟨length, hlength, hid, ‹_›, hstop, hfits⟩
  · rintro ⟨length, hlies⟩
    refine ⟨header.body, ?_⟩
    unfold readEntryHeader
    rw [Action.bind_eq_of_ok hlies.lengthField]
    dsimp only
    rw [if_neg hlies.nonempty]
    exact readEntryId_eq_ok_iff.mpr ⟨rfl, rfl, rfl, hlies.idField, hlies.stop, hlies.fits⟩

/-- The length and the identifier take eight bytes, or twenty of an entry with
wide ones. -/
theorem HeaderLies.body_eq {header : EntryHeader} {length : UInt64}
    (hlies : HeaderLies target address header length) :
    header.body.toNat = address.toNat + if header.is64 then 20 else 8 := by
  have hid := target.readUInt_ensures _ _ _ _ hlies.idField
  have hlength := hlies.lengthField
  obtain ⟨short, behind, hshort, h⟩ := Action.ok_of_bind hlength
  have hbehind : behind.toNat = address.toNat + 4 :=
    target.readUInt_ensures 4 address short behind hshort
  split at h
  · obtain ⟨long, last, hlong, hpure⟩ := Action.ok_of_bind h
    have hlast : last.toNat = behind.toNat + 8 := target.readUInt_ensures 8 behind long last hlong
    injection hpure with hpair hfield
    obtain ⟨-, hwide⟩ := Prod.mk.inj hpair
    rw [← hwide, ← hfield] at hid
    rw [← hwide]
    have : (UInt64.ofNat 8).toNat = 8 := rfl
    simp only [if_true] at hid ⊢
    omega
  · injection h with hpair hfield
    obtain ⟨-, hnarrow⟩ := Prod.mk.inj hpair
    rw [← hnarrow, ← hfield] at hid
    rw [← hnarrow]
    have : (UInt64.ofNat 4).toNat = 4 := rfl
    simp only [Bool.false_eq_true, if_false] at hid ⊢
    omega

/-! ## Augmentation data -/

/-- Where augmentation data begins and how long it says to be. -/
structure DataSpan where
  start : UInt64
  length : UInt64
  deriving DecidableEq, Repr

/-- One past the data, which may be past the last address. -/
def DataSpan.stop (data : DataSpan) : Nat :=
  data.start.toNat + data.length.toNat

/-- The augmentation data of an entry whose fields end at `pos`: the bytes
behind a length, or none. -/
def DataAt (target : Target) (hasData : Bool) (pos : UInt64) (data : DataSpan) : Prop :=
  if hasData then
    target.readULeb128 pos = .ok data.length data.start
  else
    data = ⟨pos, 0⟩

/-- Reads augmentation data, if there is any, and goes on where its length
says. -/
def readInData (target : Target) (hasData : Bool) (limit : Option UInt64) (overrun : Defect)
    (scan : Scan α) : Scan α :=
  if hasData then do
    let length ← target.readULeb128
    let start ← get
    let stop ← augmentationEnd start length limit overrun
    let a ← scan
    set stop
    return a
  else
    scan

theorem augmentationEnd_eq_ok_iff {start length : UInt64} {limit : Option UInt64}
    {overrun : Defect} {stop : UInt64} :
    augmentationEnd start length limit overrun = .ok stop ↔
      stop.toNat = start.toNat + length.toNat ∧ limit.all (stop ≤ ·) = true := by
  unfold augmentationEnd
  by_cases hfits : start.toNat + length.toNat < 2 ^ 64
  · have hsum : (start + length).toNat = start.toNat + length.toNat := by
      rw [UInt64.toNat_add, Nat.mod_eq_of_lt hfits]
    have hstop : stop.toNat = start.toNat + length.toNat ↔ start + length = stop := by
      rw [← hsum, eq_comm, UInt64.toNat_inj]
    rw [checkedAdd_of_lt hfits, hstop]
    constructor
    · dsimp only
      split
      · rintro ⟨⟩
        exact ⟨rfl, ‹_›⟩
      · rintro ⟨⟩
    · rintro ⟨rfl, hlimit⟩
      simp only [hlimit, if_true]
  · have hlt := stop.toNat_lt
    rw [checkedAdd_of_not_lt hfits]
    simp only [reduceCtorEq, false_iff, not_and]
    omega

theorem readInData_eq_ok_iff {hasData : Bool} {limit : Option UInt64} {overrun : Defect}
    {scan : Scan α} {a : α} {stop : UInt64}
    (hstays : hasData = false → ∀ next, scan pos = .ok a next → next = pos) :
    readInData target hasData limit overrun scan pos = .ok a stop ↔
      ∃ data read, DataAt target hasData pos data ∧ scan data.start = .ok a read ∧
        stop.toNat = data.stop ∧ (hasData = true → limit.all (stop ≤ ·) = true) := by
  unfold readInData DataAt
  cases hasData with
  | false =>
      simp only [Bool.false_eq_true, if_false, false_implies, and_true]
      constructor
      · intro hscan
        obtain rfl := hstays rfl stop hscan
        exact ⟨⟨stop, 0⟩, stop, rfl, hscan, rfl⟩
      · rintro ⟨_, read, rfl, hscan, hstop⟩
        obtain rfl := hstays rfl read hscan
        rwa [UInt64.toNat_inj.mp (show stop.toNat = read.toNat from hstop)]
  | true =>
      simp only [if_true, true_implies]
      constructor
      · intro h
        obtain ⟨length, start, hlength, h⟩ := Action.ok_of_bind h
        obtain ⟨last, hlast, h⟩ := Action.lift_bind_apply_eq_ok_iff.mp h
        obtain ⟨b, read, hscan, ⟨⟩⟩ := Action.ok_of_bind h
        exact ⟨⟨start, length⟩, read, hlength, hscan, augmentationEnd_eq_ok_iff.mp hlast⟩
      · rintro ⟨data, read, hlength, hscan, hlast⟩
        rw [Action.bind_eq_of_ok hlength, Action.get_bind_apply,
          augmentationEnd_eq_ok_iff.mpr hlast, Action.lift_ok_bind_apply,
          Action.bind_eq_of_ok hscan]
        rfl

theorem restOfEntry_eq_ok_iff {stop : UInt64} {overrun : Defect} {program : Span} :
    restOfEntry pos stop overrun = .ok program ↔ pos ≤ stop ∧ program = ⟨pos, stop⟩ := by
  unfold restOfEntry
  split
  · simp [*, eq_comm]
  · simp [*]

/-- Behind its fields an entry has its augmentation data, and its program in
what is left. -/
structure DataLies (target : Target) (header : EntryHeader) (hasData : Bool) (fieldsStop : UInt64)
    (data : DataSpan) (program : Span) : Prop where
  placed : DataAt target hasData fieldsStop data
  fits : data.stop ≤ header.stop.toNat
  begins : program.start.toNat = data.stop
  ends : program.stop = header.stop

theorem DataLies.start_le {header : EntryHeader} {hasData : Bool} {fieldsStop : UInt64}
    {data : DataSpan} {program : Span}
    (hlies : DataLies target header hasData fieldsStop data program) :
    program.start ≤ header.stop := by
  rw [UInt64.le_iff_toNat_le, hlies.begins]
  exact hlies.fits

/-- Augmentation data is read and leaves the program behind it. -/
theorem readInData_restOfEntry_iff {header : EntryHeader} {hasData : Bool}
    {limit : Option UInt64} {overrun short : Defect} {scan : Scan α} {a : α} {program : Span}
    (hstays : hasData = false → ∀ next, scan pos = .ok a next → next = pos)
    (hlimit : ∀ stop ≤ header.stop, limit.all (stop ≤ ·) = true) :
    (∃ stop, readInData target hasData limit overrun scan pos = .ok a stop ∧
        restOfEntry stop header.stop short = .ok program) ↔
      ∃ data read, DataLies target header hasData pos data program ∧
        scan data.start = .ok a read := by
  simp only [readInData_eq_ok_iff hstays, restOfEntry_eq_ok_iff]
  constructor
  · rintro ⟨stop, ⟨data, read, hplaced, hscan, hstop, -⟩, hfits, rfl⟩
    rw [UInt64.le_iff_toNat_le, hstop] at hfits
    exact ⟨data, read, ⟨hplaced, hfits, hstop, rfl⟩, hscan⟩
  · rintro ⟨data, read, hlies, hscan⟩
    refine ⟨program.start, ⟨data, read, hlies.placed, hscan, hlies.begins, fun _ => ?_⟩,
      hlies.start_le, ?_⟩
    · exact hlimit _ hlies.start_le
    · rw [← hlies.ends]

/-! ## Common information entries -/

/-- With a leading `z` there is augmentation data. -/
def isPrefixed (letters : List UInt8) : Bool :=
  match letters.map Char.ofUInt8 with
  | 'z' :: _ => true
  | _ => false

/-- What letters say and what they stand for in the augmentation data. -/
def readLetters (target : Target) (bases : PointerBases) (letters : List UInt8) :
    Scan Augmentation :=
  if isPrefixed letters then
    readAugmentationData target bases (letters.drop 1) { Augmentation.none with hasData := true }
  else if (letters.map Char.ofUInt8).all (· == 'S') then
    pure { Augmentation.none with signalFrame := !letters.isEmpty }
  else
    throw (.invalidArgument .unknownAugmentation)

theorem readAugmentation_eq (target : Target) (bases : PointerBases) (stop : UInt64)
    (letters : List UInt8) :
    readAugmentation target bases stop letters =
      readInData target (isPrefixed letters) (some stop) .cieDataOverruns
        (readLetters target bases letters) := by
  unfold readAugmentation readInData
  split
  · rename_i hletters
    have hprefixed : isPrefixed letters = true := by simp [isPrefixed, hletters]
    rw [if_pos hprefixed, readLetters, if_pos hprefixed]
  · rename_i hletters
    have hplain : ¬isPrefixed letters = true := by
      unfold isPrefixed
      split
      · exact absurd ‹_› (hletters _)
      · exact Bool.false_ne_true
    rw [if_neg hplain, readLetters, if_neg hplain, List.isEmpty_map]

theorem readLetters_stays {letters : List UInt8} (hplain : isPrefixed letters = false)
    {augmentation : Augmentation} {next : UInt64}
    (h : readLetters target bases letters pos = .ok augmentation next) : next = pos := by
  unfold readLetters at h
  rw [if_neg (Bool.eq_false_iff.mp hplain)] at h
  split at h <;> cases h
  rfl

/-- The fields in front of the augmentation. -/
structure CieFields where
  version : UInt8
  letters : List UInt8
  codeAlign : UInt64
  dataAlign : Int64
  returnAddress : Column
  deriving DecidableEq, Repr

def readCieFields (target : Target) : Scan CieFields := do
  let version ← target.readU8
  if !isKnownVersion version then
    throw (.badVersion version)
  else
    let letters ← readAugmentationString target maxAugmentationLength
    readSizes target version
    let codeAlign ← target.readULeb128
    let dataAlign ← target.readSLeb128
    let returnAddress ← readReturnAddress target version
    checkFactors codeAlign dataAlign
    let returnAddress ← target.arch.checkReg returnAddress
    return { version, letters, codeAlign, dataAlign, returnAddress }

/-- The fields of a CIE with the given augmentation string. -/
def Cie.fields (cie : Cie) (letters : List UInt8) : CieFields where
  version := cie.version
  letters := letters
  codeAlign := cie.codeAlign
  dataAlign := cie.dataAlign
  returnAddress := cie.returnAddress

/-- How a CIE lies behind its header: the fields end at `fieldsStop`, and what
is read as augmentation data ends at `dataRead`. -/
structure CieLies (target : Target) (bases : PointerBases) (header : EntryHeader) (cie : Cie)
    (letters : List UInt8) (fieldsStop : UInt64) (data : DataSpan) (dataRead : UInt64) :
    Prop where
  fields : readCieFields target header.body = .ok (cie.fields letters) fieldsStop
  rest : DataLies target header (isPrefixed letters) fieldsStop data cie.program
  augmentation : readLetters target bases letters data.start = .ok cie.augmentation dataRead

theorem readCieBody_eq (target : Target) (bases : PointerBases) (address stop : UInt64) :
    readCieBody target bases address stop = (do
      let fields ← readCieFields target
      let augmentation ← readAugmentation target bases stop fields.letters
      let pos ← get
      let program ← restOfEntry pos stop .cieOverruns
      return {
        address, version := fields.version, augmentation, codeAlign := fields.codeAlign
        dataAlign := fields.dataAlign, returnAddress := fields.returnAddress, program }) := by
  unfold readCieBody readCieFields
  rw [bind_assoc]
  congr 1
  funext version
  split
  · rfl
  · simp only [bind_assoc, pure_bind]

theorem readCieBody_eq_ok_iff {header : EntryHeader} {cie : Cie} :
    (readCieBody target bases address header.stop).answer header.body = .ok cie ↔
      cie.address = address ∧ ∃ letters fieldsStop data dataRead,
        CieLies target bases header cie letters fieldsStop data dataRead := by
  have hrest (letters : List UInt8) (fieldsStop : UInt64) (augmentation : Augmentation)
      (program : Span) := @readInData_restOfEntry_iff target fieldsStop Augmentation header
    (isPrefixed letters) (some header.stop) .cieDataOverruns .cieOverruns
    (readLetters target bases letters) augmentation program
    (fun hplain _ => readLetters_stays hplain) fun stop hstop => decide_eq_true hstop
  rw [Action.answer_eq_ok_iff, readCieBody_eq]
  simp only [readAugmentation_eq]
  constructor
  · rintro ⟨after, h⟩
    obtain ⟨fields, fieldsStop, hfields, h⟩ := Action.ok_of_bind h
    obtain ⟨augmentation, dataStop, haugmentation, h⟩ := Action.ok_of_bind h
    obtain ⟨program, hprogram, ⟨⟩⟩ := Action.lift_bind_apply_eq_ok_iff.mp h
    obtain ⟨data, dataRead, hlies, hletters⟩ := (hrest _ _ _ _).mp ⟨_, haugmentation, hprogram⟩
    exact ⟨rfl, fields.letters, fieldsStop, data, dataRead, hfields, hlies, hletters⟩
  · rintro ⟨rfl, letters, fieldsStop, data, dataRead, hlies⟩
    obtain ⟨dataStop, haugmentation, hprogram⟩ :=
      (hrest (cie.fields letters).letters _ _ _).mpr
        ⟨data, dataRead, hlies.rest, hlies.augmentation⟩
    refine ⟨dataStop, ?_⟩
    rw [Action.bind_eq_of_ok hlies.fields, Action.bind_eq_of_ok haugmentation,
      Action.get_bind_apply, hprogram, Action.lift_ok_bind_apply]
    rfl

theorem parseCie_eq_ok_iff {cie : Cie} :
    parseCie target address frameSection bases = .ok cie ↔
      cie.address = address ∧ ∃ header letters fieldsStop data dataRead,
        entryHeader target address = .ok header ∧ header.isCie frameSection = true ∧
          CieLies target bases header cie letters fieldsStop data dataRead := by
  unfold parseCie
  rw [bind_eq_ok_iff]
  constructor
  · rintro ⟨header, hheader, h⟩
    split at h
    · obtain ⟨haddress, letters, fieldsStop, data, dataRead, hlies⟩ := readCieBody_eq_ok_iff.mp h
      exact ⟨haddress, header, letters, fieldsStop, data, dataRead, hheader, ‹_›, hlies⟩
    · cases h
  · rintro ⟨haddress, header, letters, fieldsStop, data, dataRead, hheader, hkind, hlies⟩
    refine ⟨header, hheader, ?_⟩
    rw [if_pos hkind]
    exact readCieBody_eq_ok_iff.mpr ⟨haddress, letters, fieldsStop, data, dataRead, hlies⟩

/-! ## Frame description entries -/

/-- The first address and the length, which is relative to nothing. -/
def readFdeFields (target : Target) (bases : PointerBases) (encoding : PointerEncoding) :
    Scan (UInt64 × UInt64) := do
  let start ← target.readPointer encoding bases
  let length ← target.readPointer encoding.formatOnly bases
  return (start, length)

/-- The pointer in the augmentation data of an FDE, or none. -/
def readLsdaPointer (target : Target) (bases : PointerBases) (augmentation : Augmentation)
    (start : UInt64) : Scan UInt64 :=
  if augmentation.hasData && !augmentation.lsdaEncoding.isOmitted then
    target.readPointer augmentation.lsdaEncoding { bases with function := start }
  else
    pure 0

theorem readLsda_eq (target : Target) (bases : PointerBases) (augmentation : Augmentation)
    (start : UInt64) :
    readLsda target bases augmentation start =
      readInData target augmentation.hasData none .fdeDataOverruns
        (readLsdaPointer target bases augmentation start) := by
  unfold readLsda readInData readLsdaPointer
  cases augmentation.hasData with
  | false => rfl
  | true => cases augmentation.lsdaEncoding.isOmitted <;> rfl

theorem readLsdaPointer_stays {augmentation : Augmentation}
    (hplain : augmentation.hasData = false) {start lsda next : UInt64}
    (h : readLsdaPointer target bases augmentation start pos = .ok lsda next) : next = pos := by
  unfold readLsdaPointer at h
  rw [hplain] at h
  cases h
  rfl

/-- How an FDE lies behind its header: the fields end at `fieldsStop`, and what
is read as augmentation data ends at `dataRead`. -/
structure FdeLies (target : Target) (bases : PointerBases) (header : EntryHeader) (fde : Fde)
    (length fieldsStop : UInt64) (data : DataSpan) (dataRead : UInt64) : Prop where
  fields : readFdeFields target bases fde.cie.augmentation.fdeEncoding header.body =
    .ok (fde.start, length) fieldsStop
  rest : DataLies target header fde.cie.augmentation.hasData fieldsStop data fde.program
  lsda : readLsdaPointer target bases fde.cie.augmentation fde.start data.start =
    .ok fde.lsda dataRead
  stop : fde.stop = (fde.start + length) &&& target.arch.wordMask
  covers : fde.start < fde.stop

theorem readFdeBody_eq_ok_iff {header : EntryHeader} {cie : Cie} {fde : Fde} :
    (readFdeBody target bases address cie header.stop).answer header.body = .ok fde ↔
      fde.address = address ∧ fde.cie = cie ∧ ∃ length fieldsStop data dataRead,
        FdeLies target bases header fde length fieldsStop data dataRead := by
  have hrest (augmentation : Augmentation) (start fieldsStop lsda : UInt64) (program : Span) :=
    @readInData_restOfEntry_iff target fieldsStop UInt64 header augmentation.hasData none
      .fdeDataOverruns .fdeOverruns (readLsdaPointer target bases augmentation start) lsda program
      (fun hplain _ => readLsdaPointer_stays hplain) fun _ _ => rfl
  rw [Action.answer_eq_ok_iff]
  unfold readFdeBody
  simp only [readLsda_eq]
  constructor
  · rintro ⟨after, h⟩
    obtain ⟨start, behindStart, hstart, h⟩ := Action.ok_of_bind h
    obtain ⟨length, fieldsStop, hlength, h⟩ := Action.ok_of_bind h
    obtain ⟨lsda, dataStop, hlsda, h⟩ := Action.ok_of_bind h
    obtain ⟨program, hprogram, h⟩ := Action.lift_bind_apply_eq_ok_iff.mp h
    have hcovers : start < (start + length) &&& target.arch.wordMask := by
      by_contra hempty
      rw [if_neg hempty] at h
      cases h
    rw [if_pos hcovers] at h
    cases h
    obtain ⟨data, dataRead, hlies, hpointer⟩ := (hrest _ _ _ _ _).mp ⟨_, hlsda, hprogram⟩
    have hfields : readFdeFields target bases cie.augmentation.fdeEncoding header.body =
        .ok (start, length) fieldsStop := by
      rw [readFdeFields, Action.bind_eq_of_ok hstart, Action.bind_eq_of_ok hlength]
      rfl
    exact ⟨rfl, rfl, length, fieldsStop, data, dataRead, hfields, hlies, hpointer, rfl, hcovers⟩
  · rintro ⟨rfl, rfl, length, fieldsStop, data, dataRead, hlies⟩
    obtain ⟨start, behindStart, hstart, h⟩ := Action.ok_of_bind hlies.fields
    obtain ⟨_, _, hlength, ⟨⟩⟩ := Action.ok_of_bind h
    obtain ⟨dataStop, hlsda, hprogram⟩ :=
      (hrest _ _ _ _ _).mpr ⟨data, dataRead, hlies.rest, hlies.lsda⟩
    have hcovers : fde.start < (fde.start + length) &&& target.arch.wordMask :=
      hlies.stop ▸ hlies.covers
    refine ⟨dataStop, ?_⟩
    rw [Action.bind_eq_of_ok hstart, Action.bind_eq_of_ok hlength, Action.bind_eq_of_ok hlsda,
      Action.get_bind_apply, hprogram, Action.lift_ok_bind_apply, if_pos hcovers, ← hlies.stop]
    rfl

theorem parseFde_eq_ok_iff {fde : Fde} :
    parseFde target address frameSection bases = .ok fde ↔
      fde.address = address ∧ ∃ header length fieldsStop data dataRead,
        entryHeader target address = .ok header ∧ header.isCie frameSection = false ∧
          parseCie target (header.cieAddress frameSection) frameSection bases = .ok fde.cie ∧
          FdeLies target bases header fde length fieldsStop data dataRead := by
  unfold parseFde
  rw [bind_eq_ok_iff]
  constructor
  · rintro ⟨header, hheader, h⟩
    split at h
    · cases h
    · rename_i hkind
      obtain ⟨cie, hcie, hbody⟩ := bind_eq_ok_iff.mp h
      obtain ⟨haddress, rfl, length, fieldsStop, data, dataRead, hlies⟩ :=
        readFdeBody_eq_ok_iff.mp hbody
      exact ⟨haddress, header, length, fieldsStop, data, dataRead, hheader,
        Bool.eq_false_iff.mpr hkind, hcie, hlies⟩
  · rintro ⟨haddress, header, length, fieldsStop, data, dataRead, hheader, hkind, hcie, hlies⟩
    refine ⟨header, hheader, ?_⟩
    rw [if_neg (Bool.eq_false_iff.mp hkind), hcie]
    exact readFdeBody_eq_ok_iff.mpr ⟨haddress, rfl, length, fieldsStop, data, dataRead, hlies⟩

/-! ## The parts in order -/

theorem readAugmentationString_movesForward (target : Target) (room : Nat) :
    (readAugmentationString target room).MovesForward := by
  induction room with
  | zero =>
      refine .bind target.readU8_movesForward fun byte => ?_
      split
      · exact .pure _
      · exact .throw _
  | succ room ih =>
      refine .bind target.readU8_movesForward fun byte => ?_
      split
      · exact .pure _
      · exact .bind ih fun _ => .pure _

theorem readSizes_movesForward (target : Target) (version : UInt8) :
    (readSizes target version).MovesForward := by
  unfold readSizes
  split
  · refine .bind target.readU8_movesForward fun _ => .bind target.readU8_movesForward fun _ => ?_
    split
    · exact .throw _
    · exact .pure _
  · exact .pure _

theorem readReturnAddress_movesForward (target : Target) (version : UInt8) :
    (readReturnAddress target version).MovesForward := by
  unfold readReturnAddress
  split
  · exact .map _ target.readU8_movesForward
  · exact target.readULeb128_movesForward

theorem readCieFields_movesForward (target : Target) : (readCieFields target).MovesForward := by
  refine .bind target.readU8_movesForward fun version => ?_
  split
  · exact .throw _
  · exact .bind (readAugmentationString_movesForward target _) fun _ =>
      .bind (readSizes_movesForward target _) fun _ =>
      .bind target.readULeb128_movesForward fun _ => .bind target.readSLeb128_movesForward fun _ =>
      .bind (readReturnAddress_movesForward target _) fun _ => .bind (.ofExcept _) fun _ =>
      .bind (.ofExcept _) fun _ => .pure _

theorem readFdeFields_movesForward (target : Target) (bases : PointerBases)
    (encoding : PointerEncoding) : (readFdeFields target bases encoding).MovesForward :=
  .bind (target.readPointer_movesForward _ _) fun _ =>
    .bind (target.readPointer_movesForward _ _) fun _ => .pure _

theorem DataAt.le_start {hasData : Bool} {data : DataSpan} (h : DataAt target hasData pos data) :
    pos ≤ data.start := by
  unfold DataAt at h
  split at h
  · exact UInt64.le_iff_toNat_le.mpr (target.readULeb128_movesForward _ _ _ h)
  · rw [h]
    exact UInt64.le_refl _

/-- The parts of an entry stand one behind the other, up to its end: the
header, the fields, the augmentation data and the program. -/
structure InOrder (address : UInt64) (header : EntryHeader) (fieldsStop : UInt64)
    (data : DataSpan) (program : Span) : Prop where
  body : header.body.toNat = address.toNat + if header.is64 then 20 else 8
  fields : header.body ≤ fieldsStop
  dataStart : fieldsStop ≤ data.start
  dataStop : data.stop = program.start.toNat
  start_le : program.start ≤ program.stop
  stop : program.stop = header.stop

theorem DataLies.inOrder {header : EntryHeader} {length : UInt64} {hasData : Bool}
    {fieldsStop : UInt64} {data : DataSpan} {program : Span}
    (hlies : DataLies target header hasData fieldsStop data program)
    (hheader : HeaderLies target address header length) (hfields : header.body ≤ fieldsStop) :
    InOrder address header fieldsStop data program where
  body := hheader.body_eq
  fields := hfields
  dataStart := hlies.placed.le_start
  dataStop := hlies.begins.symm
  start_le := hlies.ends ▸ hlies.start_le
  stop := hlies.ends

theorem CieLies.inOrder {header : EntryHeader} {length : UInt64} {cie : Cie}
    {letters : List UInt8} {fieldsStop : UInt64} {data : DataSpan} {dataRead : UInt64}
    (hlies : CieLies target bases header cie letters fieldsStop data dataRead)
    (hheader : HeaderLies target address header length) :
    InOrder address header fieldsStop data cie.program :=
  hlies.rest.inOrder hheader
    (UInt64.le_iff_toNat_le.mpr (readCieFields_movesForward target _ _ _ hlies.fields))

theorem FdeLies.inOrder {header : EntryHeader} {size : UInt64} {fde : Fde}
    {length fieldsStop : UInt64} {data : DataSpan} {dataRead : UInt64}
    (hlies : FdeLies target bases header fde length fieldsStop data dataRead)
    (hheader : HeaderLies target address header size) :
    InOrder address header fieldsStop data fde.program :=
  hlies.rest.inOrder hheader
    (UInt64.le_iff_toNat_le.mpr (readFdeFields_movesForward target _ _ _ _ _ hlies.fields))

/-! ## What does not fit -/

theorem restOfEntry_of_overrun {stop : UInt64} {overrun : Defect} (hover : stop < pos) :
    restOfEntry pos stop overrun = .error (.invalidArgument overrun) :=
  if_neg (UInt64.not_le.mpr hover)

theorem readInData_of_overrun {limit : Option UInt64} {overrun : Defect} {scan : Scan α}
    {data : DataSpan} (hplaced : DataAt target true pos data)
    (hover : ∀ stop : UInt64, stop.toNat = data.stop → limit.all (stop ≤ ·) = false) :
    readInData target true limit overrun scan pos =
      .error (.invalidArgument overrun) data.start := by
  have hlength : target.readULeb128 pos = .ok data.length data.start := hplaced
  have hend : augmentationEnd data.start data.length limit overrun =
      .error (.invalidArgument overrun) := by
    unfold augmentationEnd
    split
    · rename_i stop hsum
      rw [hover stop (toNat_checkedAdd hsum), if_neg Bool.false_ne_true]
    · rfl
  unfold readInData
  rw [if_pos rfl, Action.bind_eq_of_ok hlength, Action.get_bind_apply, hend,
    Action.lift_error_bind_apply]

/-- A CIE whose fields or data end past its entry is malformed. -/
theorem parseCie_of_overrun {header : EntryHeader} {fields : CieFields} {fieldsStop : UInt64}
    {data : DataSpan} (hheader : entryHeader target address = .ok header)
    (hkind : header.isCie frameSection = true)
    (hfields : readCieFields target header.body = .ok fields fieldsStop)
    (hplaced : DataAt target (isPrefixed fields.letters) fieldsStop data)
    (hover : header.stop.toNat < data.stop) :
    ∃ defect, parseCie target address frameSection bases = .error (.invalidArgument defect) := by
  rw [parseCie, hheader, ok_bind, if_pos hkind, readCieBody_eq]
  unfold Action.answer Action.perform
  rw [Action.bind_eq_of_ok hfields, readAugmentation_eq]
  cases hprefixed : isPrefixed fields.letters with
  | true =>
      rw [hprefixed] at hplaced
      have hpast : ∀ stop : UInt64, stop.toNat = data.stop →
          (some header.stop).all (stop ≤ ·) = false := by
        intro stop hstop
        refine decide_eq_false ?_
        rw [UInt64.le_iff_toNat_le]
        omega
      rw [Action.bind_eq_of_error (readInData_of_overrun hplaced hpast)]
      exact ⟨_, rfl⟩
  | false =>
      rw [hprefixed] at hplaced
      obtain rfl : data = ⟨fieldsStop, 0⟩ := hplaced
      have hplain : readInData target false (some header.stop) .cieDataOverruns
          (readLetters target bases fields.letters) = readLetters target bases fields.letters := rfl
      have hpast : header.stop < fieldsStop := UInt64.lt_iff_toNat_lt.mpr hover
      rw [hplain, readLetters, hprefixed, if_neg Bool.false_ne_true]
      by_cases hknown : (fields.letters.map Char.ofUInt8).all (· == 'S') = true
      · rw [if_pos hknown, pure_bind, Action.get_bind_apply, restOfEntry_of_overrun hpast,
          Action.lift_error_bind_apply]
        exact ⟨_, rfl⟩
      · rw [if_neg hknown]
        exact ⟨_, rfl⟩

/-- An FDE whose fields or data end past its entry is malformed, if all of it
can be read. -/
theorem parseFde_of_overrun {header : EntryHeader} {cie : Cie}
    {start length fieldsStop lsda read : UInt64} {data : DataSpan}
    (hheader : entryHeader target address = .ok header)
    (hkind : header.isCie frameSection = false)
    (hcie : parseCie target (header.cieAddress frameSection) frameSection bases = .ok cie)
    (hfields : readFdeFields target bases cie.augmentation.fdeEncoding header.body =
      .ok (start, length) fieldsStop)
    (hplaced : DataAt target cie.augmentation.hasData fieldsStop data)
    (hlsda : readLsdaPointer target bases cie.augmentation start data.start = .ok lsda read)
    (hover : header.stop.toNat < data.stop) :
    ∃ defect, parseFde target address frameSection bases = .error (.invalidArgument defect) := by
  obtain ⟨_, behindStart, hstart, h⟩ := Action.ok_of_bind hfields
  obtain ⟨_, _, hlength, ⟨⟩⟩ := Action.ok_of_bind h
  rw [parseFde, hheader, ok_bind, if_neg (Bool.eq_false_iff.mp hkind), hcie, ok_bind]
  unfold Action.answer Action.perform readFdeBody
  rw [Action.bind_eq_of_ok hstart, Action.bind_eq_of_ok hlength, readLsda_eq]
  by_cases hroom : data.stop < 2 ^ 64
  · -- Elsewhere it is the room left for the program that is refused.
    have hstop : (UInt64.ofNat data.stop).toNat = data.stop := UInt64.toNat_ofNat_of_lt' hroom
    have hread : readInData target cie.augmentation.hasData none .fdeDataOverruns
        (readLsdaPointer target bases cie.augmentation start) fieldsStop =
          .ok lsda (UInt64.ofNat data.stop) :=
      (readInData_eq_ok_iff fun hplain _ => readLsdaPointer_stays hplain).mpr
        ⟨data, read, hplaced, hlsda, hstop, fun _ => rfl⟩
    have hpast : header.stop < UInt64.ofNat data.stop := by
      rw [UInt64.lt_iff_toNat_lt, hstop]
      exact hover
    rw [Action.bind_eq_of_ok hread, Action.get_bind_apply, restOfEntry_of_overrun hpast,
      Action.lift_error_bind_apply]
    exact ⟨_, rfl⟩
  · -- Data that ends past the last address is refused by its length alone.
    cases hdata : cie.augmentation.hasData with
    | true =>
        rw [hdata] at hplaced
        have hnone : ∀ stop : UInt64, stop.toNat = data.stop →
            (none : Option UInt64).all (stop ≤ ·) = false := by
          intro stop hstop
          exact absurd (hstop ▸ stop.toNat_lt) hroom
        rw [Action.bind_eq_of_error (readInData_of_overrun hplaced hnone)]
        exact ⟨_, rfl⟩
    | false =>
        rw [hdata] at hplaced
        obtain rfl : data = ⟨fieldsStop, 0⟩ := hplaced
        exact absurd fieldsStop.toNat_lt hroom

end StackWalk.Cfi
