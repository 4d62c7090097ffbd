import StackWalk.Cfi.Instruction
import StackWalk.ProcInfo

/-!
# Entries of call frame information

A section of call frame information is a chain of entries, each with its
length in front.  A common information entry (CIE) holds what many procedures
share; a frame description entry (FDE) describes one procedure and names its
CIE.  Entries are read through the target each time they are needed.
-/

namespace StackWalk.Cfi

/-- Addresses from `start` up to, and without, `stop`. -/
structure Span where
  start : UInt64
  stop : UInt64
  deriving DecidableEq, Repr

/-- What the augmentation of a CIE says. -/
structure Augmentation where
  /-- The entry and its FDEs have augmentation data with its length in front. -/
  hasData : Bool
  lsdaEncoding : PointerEncoding
  fdeEncoding : PointerEncoding
  /-- The address of the routine that handles exceptions. -/
  personality : UInt64
  /-- The FDEs describe signal trampolines. -/
  signalFrame : Bool
  deriving DecidableEq, Repr

def Augmentation.none : Augmentation where
  hasData := false
  lsdaEncoding := .omitted
  fdeEncoding := .absolute
  personality := 0
  signalFrame := false

/-- What many procedures share. -/
structure Cie where
  address : UInt64
  version : UInt8
  augmentation : Augmentation
  /-- What deltas of the location are multiplied by. -/
  codeAlign : UInt64
  /-- What factored offsets are multiplied by. -/
  dataAlign : Int64
  /-- The column of the return address. -/
  returnAddress : Column
  /-- The program that sets up the first row. -/
  program : Span
  deriving DecidableEq, Repr

/-- The description of one procedure. -/
structure Fde where
  address : UInt64
  cie : Cie
  start : UInt64
  stop : UInt64
  /-- The data of the procedure's language, or zero. -/
  lsda : UInt64
  /-- The program that derives the rows of the procedure. -/
  program : Span
  deriving DecidableEq, Repr

def Fde.contains (fde : Fde) (ip : UInt64) : Bool :=
  fde.start ≤ ip && ip < fde.stop

def Fde.procInfo (fde : Fde) (frameSection : FrameSection) (bases : PointerBases) : ProcInfo where
  start := fde.start
  stop := fde.stop
  lsda := fde.lsda
  handler := fde.cie.augmentation.personality
  gp := bases.data
  textBase := bases.text
  unwindInfo := .dwarf fde.address frameSection

/-! ## Headers -/

/-- The length and the identifier at the start of every entry. -/
structure EntryHeader where
  /-- The address of the identifier. -/
  idField : UInt64
  id : UInt64
  /-- The length and the identifier are eight bytes wide. -/
  is64 : Bool
  /-- The first byte after the identifier. -/
  body : UInt64
  /-- One past the last byte of the entry. -/
  stop : UInt64
  deriving DecidableEq, Repr

def EntryHeader.isCie (header : EntryHeader) : FrameSection → Bool
  | .ehFrame => header.id == 0
  | .debugFrame _ => header.id == if header.is64 then maxWord else 0xffffffff

/-- One past an entry of `length` bytes at `start`. -/
def entryEnd (start length : UInt64) : Except UnwindError UInt64 :=
  match checkedAdd start length with
  | some stop => .ok stop
  | none => .error (.invalidArgument .entryTooLong)

/-- The length of an entry: four bytes, or eight after four bytes of ones. -/
def readEntryLength (target : Target) : Scan (UInt64 × Bool) := do
  let short ← target.readUInt 4
  if short = 0xffffffff then
    let long ← target.readUInt 8
    return (long, true)
  else
    return (short, false)

def readEntryId (target : Target) (length : UInt64) (is64 : Bool) : Scan EntryHeader := do
  let idField ← get
  let stop ← entryEnd idField length
  let id ← target.readUInt (if is64 then 8 else 4)
  let body ← get
  if stop < body then
    throw (.invalidArgument .entryTooShort)
  else
    return { idField, id, is64, body, stop }

/-- The header of an entry.  An entry of no length ends a chain and has none. -/
def readEntryHeader (target : Target) : Scan EntryHeader := do
  let (length, is64) ← readEntryLength target
  if length = 0 then
    throw (.invalidArgument .emptyEntry)
  else
    readEntryId target length is64

def entryHeader (target : Target) (address : UInt64) : Except UnwindError EntryHeader :=
  (readEntryHeader target).answer address

/-! ## Common information entries -/

/-- The most letters that an augmentation string may have. -/
def maxAugmentationLength : Nat := 8

/-- The letters up to a zero byte, at most `room` of them. -/
def readAugmentationString (target : Target) : Nat → Scan (List UInt8)
  | 0 => do
      let byte ← target.readU8
      if byte = 0 then
        return []
      else
        throw (.invalidArgument .augmentationTooLong)
  | room + 1 => do
      let byte ← target.readU8
      if byte = 0 then
        return []
      else
        let rest ← readAugmentationString target room
        return byte :: rest

/-- Reads the augmentation data that letters stand for, as far as they are
known. -/
def readAugmentationData (target : Target) (bases : PointerBases) :
    List UInt8 → Augmentation → Scan Augmentation
  | [], augmentation =>
      pure augmentation
  | letter :: rest, augmentation =>
      match Char.ofUInt8 letter with
      | 'L' => do
          let byte ← target.readU8
          readAugmentationData target bases rest { augmentation with lsdaEncoding := ⟨byte⟩ }
      | 'R' => do
          let byte ← target.readU8
          readAugmentationData target bases rest { augmentation with fdeEncoding := ⟨byte⟩ }
      | 'P' => do
          let byte ← target.readU8
          let personality ← target.readPointer ⟨byte⟩ bases
          readAugmentationData target bases rest { augmentation with personality }
      | 'S' =>
          readAugmentationData target bases rest { augmentation with signalFrame := true }
      | _ =>
          pure augmentation

/-- One past augmentation data of `length` bytes at `start`, which has to end
by `limit`. -/
def augmentationEnd (start length : UInt64) (limit : Option UInt64) (overrun : Defect) :
    Except UnwindError UInt64 :=
  match checkedAdd start length with
  | some stop =>
      if limit.all (stop ≤ ·) then
        .ok stop
      else
        .error (.invalidArgument overrun)
  | none =>
      .error (.invalidArgument overrun)

/-- Reads the augmentation that letters stand for.  With a leading `z` the
data has its length in front and unknown letters are skipped; without it only
`S` is known. -/
def readAugmentation (target : Target) (bases : PointerBases) (stop : UInt64)
    (letters : List UInt8) : Scan Augmentation :=
  match letters.map Char.ofUInt8 with
  | 'z' :: _ => do
      let length ← target.readULeb128
      let start ← get
      let dataEnd ← augmentationEnd start length (some stop) .cieDataOverruns
      let augmentation ← readAugmentationData target bases (letters.drop 1)
        { Augmentation.none with hasData := true }
      set dataEnd
      return augmentation
  | chars =>
      if chars.all (· == 'S') then
        pure { Augmentation.none with signalFrame := !chars.isEmpty }
      else
        throw (.invalidArgument .unknownAugmentation)

def isKnownVersion (version : UInt8) : Bool :=
  version == 1 || version == 3 || version == 4

/-- The word and segment sizes that version 4 has. -/
def readSizes (target : Target) (version : UInt8) : Scan Unit := do
  if version = 4 then
    let addressSize ← target.readU8
    let _segmentSize ← target.readU8
    if addressSize.toNat ≠ target.arch.addressSize then
      throw (.invalidArgument .cieAddressSize)

def readReturnAddress (target : Target) (version : UInt8) : Scan UInt64 :=
  if version = 1 then
    UInt8.toUInt64 <$> target.readU8
  else
    target.readULeb128

/-- Factors of zero would make all offsets or deltas equal. -/
def checkFactors (codeAlign : UInt64) (dataAlign : Int64) : Except UnwindError Unit :=
  if codeAlign = 0 then
    .error (.invalidArgument .zeroCodeAlignment)
  else if dataAlign = 0 then
    .error (.invalidArgument .zeroDataAlignment)
  else
    .ok ()

/-- What is left of an entry after its fields: its program. -/
def restOfEntry (pos stop : UInt64) (overrun : Defect) : Except UnwindError Span :=
  if pos ≤ stop then
    .ok ⟨pos, stop⟩
  else
    .error (.invalidArgument overrun)

/-- The fields of a CIE after its header. -/
def readCieBody (target : Target) (bases : PointerBases) (address stop : UInt64) :
    Scan Cie := do
  let version ← target.readU8
  if !isKnownVersion version then
    throw (.badVersion version)
  else
    let letters ← readAugmentationString target maxAugmentationLength
    readSizes target version
    let codeAlign ← target.readULeb128
    let dataAlign ← target.readSLeb128
    let returnAddress ← readReturnAddress target version
    checkFactors codeAlign dataAlign
    let returnAddress ← target.arch.checkReg returnAddress
    let augmentation ← readAugmentation target bases stop letters
    let pos ← get
    let program ← restOfEntry pos stop .cieOverruns
    return { address, version, augmentation, codeAlign, dataAlign, returnAddress, program }

def parseCie (target : Target) (address : UInt64) (frameSection : FrameSection)
    (bases : PointerBases) : Except UnwindError Cie := do
  let header ← entryHeader target address
  if header.isCie frameSection then
    (readCieBody target bases address header.stop).answer header.body
  else
    throw (.invalidArgument .notACie)

/-! ## Frame description entries -/

def EntryHeader.cieAddress (header : EntryHeader) : FrameSection → UInt64
  | .ehFrame => header.idField - header.id
  | .debugFrame base => base + header.id

/-- The augmentation data of an FDE: the address of the language's data. -/
def readLsda (target : Target) (bases : PointerBases) (augmentation : Augmentation)
    (start : UInt64) : Scan UInt64 := do
  if augmentation.hasData then
    let length ← target.readULeb128
    let pos ← get
    let dataEnd ← augmentationEnd pos length none .fdeDataOverruns
    let lsda ←
      if augmentation.lsdaEncoding.isOmitted then
        pure 0
      else
        target.readPointer augmentation.lsdaEncoding { bases with function := start }
    set dataEnd
    return lsda
  else
    return 0

/-- The fields of an FDE after its header.  The second address is a length
and relative to nothing. -/
def readFdeBody (target : Target) (bases : PointerBases) (address : UInt64) (cie : Cie)
    (stop : UInt64) : Scan Fde := do
  let encoding := cie.augmentation.fdeEncoding
  let start ← target.readPointer encoding bases
  let length ← target.readPointer encoding.formatOnly bases
  let last := (start + length) &&& target.arch.wordMask
  let lsda ← readLsda target bases cie.augmentation start
  let pos ← get
  let program ← restOfEntry pos stop .fdeOverruns
  if start < last then
    return { address, cie, start, stop := last, lsda, program }
  else
    throw (.invalidArgument .fdeEmptyRange)

def parseFde (target : Target) (address : UInt64) (frameSection : FrameSection)
    (bases : PointerBases) : Except UnwindError Fde := do
  let header ← entryHeader target address
  if header.isCie frameSection then
    throw (.invalidArgument .notAnFde)
  else
    let cie ← parseCie target (header.cieAddress frameSection) frameSection bases
    (readFdeBody target bases address cie header.stop).answer header.body

/-! ## Entries end after they begin -/

theorem readEntryId_ensures (target : Target) (length : UInt64) (is64 : Bool) (pos : UInt64) :
    Action.Ensures (readEntryId target length is64) pos fun header next =>
      pos.toNat ≤ header.body.toNat ∧ header.body.toNat ≤ header.stop.toNat ∧
        header.body = next := by
  refine .bind .get ?_
  rintro _ _ ⟨rfl, rfl⟩
  refine .bind .ofExcept ?_
  rintro stop _ ⟨_, rfl⟩
  refine .bind (target.readUInt_movesForward _ _) fun id next hnext => ?_
  refine .bind .get ?_
  rintro _ _ ⟨rfl, rfl⟩
  refine .ite (fun _ => .throw) fun hle => .pure ⟨hnext, ?_, rfl⟩
  exact Nat.le_of_not_lt fun h => hle (UInt64.lt_iff_toNat_lt.mpr h)

theorem readEntryLength_ensures (target : Target) (pos : UInt64) :
    Action.Ensures (readEntryLength target) pos fun _ next => pos.toNat < next.toNat := by
  refine .bind (target.readUInt_ensures 4 pos) fun short next hnext => ?_
  have hfour : (UInt64.ofNat 4).toNat = 4 := rfl
  refine .ite (fun _ => ?_) fun _ => .pure (by omega)
  refine .bind (target.readUInt_movesForward 8 next) fun long last hlast => ?_
  exact .pure (by omega)

theorem readEntryHeader_ensures (target : Target) (pos : UInt64) :
    Action.Ensures (readEntryHeader target) pos fun header _ =>
      pos.toNat < header.stop.toNat := by
  refine .bind (readEntryLength_ensures target pos) ?_
  rintro ⟨length, is64⟩ next hnext
  refine .ite (fun _ => .throw) fun _ => ?_
  refine (readEntryId_ensures target length is64 next).mono ?_
  rintro header after ⟨hbody, hstop, _⟩
  omega

/-- Every entry ends after the address it begins at. -/
theorem entryHeader_advances {target : Target} {address : UInt64} {header : EntryHeader}
    (h : entryHeader target address = .ok header) : address.toNat < header.stop.toNat := by
  obtain ⟨after, hrun⟩ := Action.answer_eq_ok h
  exact readEntryHeader_ensures target address header after hrun

end StackWalk.Cfi
