import Mathlib.Tactic
import StackWalk.Proofs.Cfi.EntryErrors
import StackWalk.Proofs.Cfi.EntryLayout
import StackWalk.Proofs.Concur
import StackWalk.Proofs.Word

/-!
# Entries parsed again

Whoever looks up a procedure parses its FDE before the start of the procedure
is known; whoever unwinds through it parses the same bytes again, with function
relative pointers relative to that start.  Only what is stored relative to the
function is read differently, and no encoding changes where the reading ends.
-/

namespace StackWalk

/-- Pointers of the encoding are not relative to the function. -/
def PointerEncoding.FunctionFree (encoding : PointerEncoding) : Prop :=
  encoding.base ≠ .ok .function

variable {target : Target} {bases : PointerBases} {encoding : PointerEncoding}

namespace Target

theorem pointerOfStored_functionFree (h : encoding.FunctionFree)
    (function fieldAddr value : UInt64) :
    target.pointerOfStored encoding { bases with function } fieldAddr value =
      target.pointerOfStored encoding bases fieldAddr value := by
  unfold pointerOfStored
  split
  · rfl
  · unfold PointerEncoding.FunctionFree at h
    cases hbase : encoding.base with
    | error e => rfl
    | ok base =>
        cases base with
        | function => exact absurd hbase h
        | absolute | field | text | data | aligned => rfl

theorem readPointer_functionFree (h : encoding.FunctionFree) (function : UInt64) :
    target.readPointer encoding { bases with function } = target.readPointer encoding bases := by
  unfold readPointer
  simp only [pointerOfStored_functionFree h]

/-- What was found relative to zero is counted twice when it is found again
relative to itself. -/
theorem pointerOfStored_doubled (hbase : encoding.base = .ok .function)
    (hdirect : encoding.isIndirect = false) (hfunction : bases.function = 0)
    {fieldAddr value pointer : UInt64}
    (h : target.pointerOfStored encoding bases fieldAddr value = .ok pointer) :
    target.pointerOfStored encoding { bases with function := pointer } fieldAddr value =
      .ok ((pointer + pointer) &&& target.arch.wordMask) := by
  unfold pointerOfStored at h ⊢
  simp only [hbase, hdirect, relativeTo, hfunction, UInt64.add_zero] at h ⊢
  split at h
  · rename_i hzero
    cases h
    rw [if_pos hzero, UInt64.add_zero, UInt64.zero_and]
    rfl
  · rename_i hzero
    cases h
    rw [if_neg hzero]
    have hmasked := Arch.addOffset_masked target.arch value (value &&& target.arch.wordMask).toInt64
    rw [addOffset_toInt64, addOffset_toInt64] at hmasked
    exact congrArg Except.ok hmasked.symm

theorem readPointer_doubled (hbase : encoding.base = .ok .function)
    (hdirect : encoding.isIndirect = false) (hfunction : bases.function = 0)
    {pos pointer next : UInt64} (h : target.readPointer encoding bases pos = .ok pointer next) :
    target.readPointer encoding { bases with function := pointer } pos =
      .ok ((pointer + pointer) &&& target.arch.wordMask) next := by
  have homitted : encoding.isOmitted = false := by
    rw [Bool.eq_false_iff]
    intro homitted
    obtain rfl : encoding = .omitted := by simpa [PointerEncoding.isOmitted] using homitted
    cases hbase
  have haligned : encoding ≠ .alignedWord := by
    rintro rfl
    cases hbase
  unfold readPointer at h ⊢
  rw [homitted, if_neg Bool.false_ne_true, if_neg haligned] at h ⊢
  obtain ⟨fieldAddr, first, hfield, h⟩ := Action.ok_of_bind h
  obtain ⟨format, second, hformat, h⟩ := Action.ok_of_bind h
  obtain ⟨value, third, hvalue, h⟩ := Action.ok_of_bind h
  rw [Action.bind_eq_of_ok hfield, Action.bind_eq_of_ok hformat, Action.bind_eq_of_ok hvalue]
  cases hpointer : target.pointerOfStored encoding bases fieldAddr value with
  | error e =>
      rw [hpointer] at h
      cases h
  | ok found =>
      rw [hpointer] at h
      cases h
      rw [pointerOfStored_doubled hbase hdirect hfunction hpointer]
      rfl

end Target

theorem PointerEncoding.functionFree_formatOnly (encoding : PointerEncoding) :
    encoding.formatOnly.FunctionFree := by
  have hbase : encoding.formatOnly.base = .ok .absolute := by
    unfold PointerEncoding.base PointerEncoding.formatOnly
    rw [UInt8.and_assoc, show (0x0f &&& 0x70 : UInt8) = 0 from rfl, UInt8.and_zero]
    rfl
  rw [FunctionFree, hbase]
  decide

/-! ## Scans that do the same -/

/-- Begun at `pos`, the scans do the same. -/
def Scan.SameAt {α : Type} (pos : UInt64) (first second : Scan α) : Prop :=
  first pos = second pos

theorem Scan.SameAt.bind {α β : Type} {pos : UInt64} {first second : Scan α} {f g : α → Scan β}
    (hscan : first pos = second pos)
    (hf : ∀ a next, second pos = .ok a next → SameAt next (f a) (g a)) :
    SameAt pos (first >>= f) (second >>= g) := by
  unfold SameAt
  rw [Action.bind_apply, Action.bind_apply, hscan]
  cases hrun : second pos with
  | ok a next => exact hf a next hrun
  | error e next => rfl

namespace Cfi

variable {first second : Target} {frameSection : FrameSection} {address pos : UInt64}

/-! ## Readers of both parses -/

section Concurring

open Scan (AgreeAt)

variable (h : first.Concurs second)

include h

theorem readEntryLength_agreeAt (pos : UInt64) :
    AgreeAt Eq pos (readEntryLength first) (readEntryLength second) :=
  .bind_eq (Target.readUInt_agreeAt h 4 pos) fun _ next =>
    .ite (.bind_eq (Target.readUInt_agreeAt h 8 next) fun _ _ => .pure rfl) (.pure rfl)

theorem readEntryId_agreeAt (length : UInt64) (is64 : Bool) (pos : UInt64) :
    AgreeAt Eq pos (readEntryId first length is64) (readEntryId second length is64) :=
  .get_bind <| .lift_bind fun _ => .bind_eq (Target.readUInt_agreeAt h _ pos) fun _ _ =>
    .get_bind <| .ite (.throw _) (.pure rfl)

theorem entryHeader_eq_of_concurs {header header' : EntryHeader}
    (hfirst : entryHeader first address = .ok header)
    (hsecond : entryHeader second address = .ok header') : header = header' := by
  have hagree : AgreeAt Eq address (readEntryHeader first) (readEntryHeader second) :=
    .bind_eq (readEntryLength_agreeAt h address) fun length next =>
      .ite (.throw _) (readEntryId_agreeAt h length.1 length.2 next)
  exact hagree.answer hfirst hsecond

theorem readAugmentationString_agreeAt (room : Nat) (pos : UInt64) :
    AgreeAt Eq pos (readAugmentationString first room) (readAugmentationString second room) := by
  induction room generalizing pos with
  | zero =>
      exact .bind_eq (Target.readU8_agreeAt h pos) fun _ _ => .ite (.pure rfl) (.throw _)
  | succ room ih =>
      exact .bind_eq (Target.readU8_agreeAt h pos) fun _ next =>
        .ite (.pure rfl) (.bind_eq (ih next) fun _ _ => .pure rfl)

theorem readSizes_agreeAt (version : UInt8) (pos : UInt64) :
    AgreeAt Eq pos (readSizes first version) (readSizes second version) := by
  unfold readSizes
  rw [h.arch_eq]
  exact .ite (.bind_eq (Target.readU8_agreeAt h pos) fun _ next =>
    .bind_eq (Target.readU8_agreeAt h next) fun _ _ => .ite (.throw _) (.pure rfl)) (.pure rfl)

theorem readReturnAddress_agreeAt (version : UInt8) (pos : UInt64) :
    AgreeAt Eq pos (readReturnAddress first version) (readReturnAddress second version) :=
  .ite (.map _ (Target.readU8_agreeAt h pos)) (Target.readULeb128_agreeAt h pos)

theorem readCieFields_agreeAt (pos : UInt64) :
    AgreeAt Eq pos (readCieFields first) (readCieFields second) := by
  unfold readCieFields
  rw [h.arch_eq]
  exact .bind_eq (Target.readU8_agreeAt h pos) fun version _ => .ite (.throw _) <|
    .bind_eq (readAugmentationString_agreeAt h _ _) fun _ _ =>
    .bind_eq (readSizes_agreeAt h version _) fun _ _ =>
    .bind_eq (Target.readULeb128_agreeAt h _) fun _ _ =>
    .bind_eq (Target.readSLeb128_agreeAt h _) fun _ _ =>
    .bind_eq (readReturnAddress_agreeAt h version _) fun _ _ =>
    .lift_bind fun _ => .lift_bind fun _ => .pure rfl

theorem DataLies.eq_of_concurs {header : EntryHeader} {hasData : Bool} {fieldsStop : UInt64}
    {data data' : DataSpan} {program program' : Span}
    (hfirst : DataLies first header hasData fieldsStop data program)
    (hsecond : DataLies second header hasData fieldsStop data' program') :
    data = data' ∧ program = program' := by
  have hdata : data = data' := by
    have hplaced := hfirst.placed
    have hplaced' := hsecond.placed
    unfold DataAt at hplaced hplaced'
    split at hplaced
    · rw [if_pos ‹_›] at hplaced'
      obtain ⟨hlength, hstart⟩ := Target.readULeb128_agreeAt h _ _ _ _ _ hplaced hplaced'
      cases data
      cases data'
      exact congrArg₂ DataSpan.mk hstart hlength
    · rw [if_neg ‹_›] at hplaced'
      exact hplaced.trans hplaced'.symm
  subst hdata
  refine ⟨rfl, ?_⟩
  cases program
  cases program'
  exact congrArg₂ Span.mk (UInt64.toNat_inj.mp (hfirst.begins.trans hsecond.begins.symm))
    (hfirst.ends.trans hsecond.ends.symm)

theorem readFdeFields_agreeAt (encoding : PointerEncoding) (bases : PointerBases) (pos : UInt64) :
    AgreeAt Eq pos (readFdeFields first bases encoding) (readFdeFields second bases encoding) :=
  .bind_eq (Target.readPointer_agreeAt h _ _ pos) fun _ next =>
    .bind_eq (Target.readPointer_agreeAt h _ _ next) fun _ _ => .pure rfl

theorem readLsdaPointer_agreeAt (augmentation : Augmentation) (bases : PointerBases)
    (start pos : UInt64) :
    AgreeAt Eq pos (readLsdaPointer first bases augmentation start)
      (readLsdaPointer second bases augmentation start) :=
  .ite (Target.readPointer_agreeAt h _ _ pos) (.pure rfl)

end Concurring

/-! ## Common information entries -/

def Augmentation.withPersonality (augmentation : Augmentation) (personality : UInt64) :
    Augmentation :=
  { augmentation with personality }

def Cie.withPersonality (cie : Cie) (personality : UInt64) : Cie :=
  { cie with augmentation := cie.augmentation.withPersonality personality }

/-- The augmentations say the same but for the personality. -/
def Augmentation.Similar (first second : Augmentation) : Prop :=
  ∃ personality, second = first.withPersonality personality

theorem readAugmentationData_agreeAt (h : first.Concurs second) (bases bases' : PointerBases)
    (letters : List UInt8) {augmentation augmentation' : Augmentation}
    (hsimilar : augmentation.Similar augmentation') (pos : UInt64) :
    Scan.AgreeAt Augmentation.Similar pos
      (readAugmentationData first bases letters augmentation)
      (readAugmentationData second bases' letters augmentation') := by
  induction letters generalizing augmentation augmentation' pos with
  | nil => exact .pure hsimilar
  | cons letter rest ih =>
      obtain ⟨personality, rfl⟩ := hsimilar
      unfold readAugmentationData
      split
      · exact .bind_eq (Target.readU8_agreeAt h pos) fun byte next => ih ⟨personality, rfl⟩ next
      · exact .bind_eq (Target.readU8_agreeAt h pos) fun byte next => ih ⟨personality, rfl⟩ next
      · exact .bind_eq (Target.readU8_agreeAt h pos) fun byte next =>
          .bind (Target.readPointer_readsAsFar h _ _ _ next) fun _ p' next _ => ih ⟨p', rfl⟩ next
      · exact ih ⟨personality, rfl⟩ pos
      · exact .pure ⟨personality, rfl⟩

theorem readLetters_agreeAt (h : first.Concurs second) (bases bases' : PointerBases)
    (letters : List UInt8) (pos : UInt64) :
    Scan.AgreeAt Augmentation.Similar pos (readLetters first bases letters)
      (readLetters second bases' letters) := by
  have hsame (augmentation : Augmentation) : augmentation.Similar augmentation :=
    ⟨augmentation.personality, rfl⟩
  exact .ite (readAugmentationData_agreeAt h bases bases' _ (hsame _) pos)
    (.ite (.pure (hsame _)) (.throw _))

/-- A CIE parsed again is the same but for the personality. -/
theorem parseCie_again (h : first.Concurs second) {bases' : PointerBases} {cie again : Cie}
    (hparse : parseCie first address frameSection bases = .ok cie)
    (hagain : parseCie second address frameSection bases' = .ok again) :
    ∃ personality, again = cie.withPersonality personality := by
  obtain ⟨haddress, header, letters, fieldsStop, data, dataRead, hheader, -, hlies⟩ :=
    parseCie_eq_ok_iff.mp hparse
  obtain ⟨haddress', header', letters', fieldsStop', data', dataRead', hheader', -, hlies'⟩ :=
    parseCie_eq_ok_iff.mp hagain
  obtain rfl := entryHeader_eq_of_concurs h hheader hheader'
  obtain ⟨hfields, rfl⟩ := readCieFields_agreeAt h _ _ _ _ _ hlies.fields hlies'.fields
  obtain rfl : letters = letters' := congrArg CieFields.letters hfields
  obtain ⟨rfl, hprogram⟩ := hlies.rest.eq_of_concurs h hlies'.rest
  obtain ⟨⟨personality, haugmentation⟩, -⟩ :=
    readLetters_agreeAt h _ _ _ _ _ _ _ _ hlies.augmentation hlies'.augmentation
  refine ⟨personality, ?_⟩
  cases cie
  cases again
  simp only [Cie.withPersonality, Cie.fields, CieFields.mk.injEq, Cie.mk.injEq] at *
  grind

/-- What letters stand for in the augmentation data is not relative to the
function. -/
def LettersFree (target : Target) (bases : PointerBases) : List UInt8 → UInt64 → Prop
  | [], _ => True
  | letter :: rest, pos =>
      match Char.ofUInt8 letter with
      | 'L' | 'R' =>
          ∀ byte next, target.readU8 pos = .ok byte next → LettersFree target bases rest next
      | 'P' =>
          ∀ byte body, target.readU8 pos = .ok byte body →
            PointerEncoding.FunctionFree ⟨byte⟩ ∧
            ∀ personality next, target.readPointer ⟨byte⟩ bases body = .ok personality next →
              LettersFree target bases rest next
      | 'S' => LettersFree target bases rest pos
      | _ => True

theorem readAugmentationData_free {letters : List UInt8} (pos : UInt64)
    (hfree : LettersFree target bases letters pos) (function : UInt64)
    (augmentation : Augmentation) :
    Scan.SameAt pos (readAugmentationData target { bases with function } letters augmentation)
      (readAugmentationData target bases letters augmentation) := by
  induction letters generalizing augmentation pos with
  | nil => exact rfl
  | cons letter rest ih =>
      unfold LettersFree at hfree
      unfold readAugmentationData
      by_cases hlsda : Char.ofUInt8 letter = 'L'
      · simp only [hlsda] at hfree ⊢
        exact .bind rfl fun byte next hbyte => ih next (hfree byte next hbyte) _
      by_cases hstart : Char.ofUInt8 letter = 'R'
      · simp only [hstart] at hfree ⊢
        exact .bind rfl fun byte next hbyte => ih next (hfree byte next hbyte) _
      by_cases hpersonality : Char.ofUInt8 letter = 'P'
      · simp only [hpersonality] at hfree ⊢
        refine .bind rfl fun byte body hbyte => ?_
        obtain ⟨hencoding, hrest⟩ := hfree byte body hbyte
        rw [Target.readPointer_functionFree hencoding]
        exact .bind rfl fun personality next hpointer => ih next (hrest personality next hpointer) _
      by_cases hsignal : Char.ofUInt8 letter = 'S'
      · simp only [hsignal] at hfree ⊢
        exact ih pos hfree _
      · split <;> first | contradiction | rfl

theorem readLetters_free {letters : List UInt8} (pos : UInt64)
    (hfree : isPrefixed letters = true → LettersFree target bases (letters.drop 1) pos)
    (function : UInt64) :
    Scan.SameAt pos (readLetters target { bases with function } letters)
      (readLetters target bases letters) := by
  unfold readLetters
  split
  · exact readAugmentationData_free pos (hfree ‹_›) function _
  · rfl

/-- Nothing that the CIE at an address names is relative to the function. -/
def CieFree (target : Target) (bases : PointerBases) (address : UInt64) : Prop :=
  ∀ header fields fieldsStop data, entryHeader target address = .ok header →
    readCieFields target header.body = .ok fields fieldsStop →
    isPrefixed fields.letters = true → DataAt target true fieldsStop data →
    LettersFree target bases (fields.letters.drop 1) data.start

theorem parseCie_free {cie : Cie} (h : parseCie target address frameSection bases = .ok cie)
    (hfree : CieFree target bases address) (function : UInt64) :
    parseCie target address frameSection { bases with function } = .ok cie := by
  obtain ⟨haddress, header, letters, fieldsStop, data, dataRead, hheader, hkind, hlies⟩ :=
    parseCie_eq_ok_iff.mp h
  have hletters : Scan.SameAt data.start (readLetters target { bases with function } letters)
      (readLetters target bases letters) :=
    readLetters_free data.start (fun hprefixed =>
      hfree header _ fieldsStop data hheader hlies.fields hprefixed
        (hprefixed ▸ hlies.rest.placed)) function
  exact parseCie_eq_ok_iff.mpr ⟨haddress, header, letters, fieldsStop, data, dataRead, hheader,
    hkind, hlies.fields, hlies.rest, hletters.trans hlies.augmentation⟩

/-! ## Frame description entries -/

def Fde.withPersonality (fde : Fde) (personality : UInt64) : Fde :=
  { fde with cie := fde.cie.withPersonality personality }

theorem readFdeFields_free (h : encoding.FunctionFree) (function : UInt64) :
    readFdeFields target { bases with function } encoding =
      readFdeFields target bases encoding := by
  unfold readFdeFields
  rw [Target.readPointer_functionFree h,
    Target.readPointer_functionFree encoding.functionFree_formatOnly]

/-- An FDE whose start is not relative to the function, parsed again, is the same
but for the personality. -/
theorem parseFde_again (h : first.Concurs second) {fde again : Fde}
    (hparse : parseFde first address frameSection bases = .ok fde)
    (hencoding : fde.cie.augmentation.fdeEncoding.FunctionFree) {function : UInt64}
    (hagain : parseFde second address frameSection { bases with function } = .ok again) :
    ∃ personality, again = fde.withPersonality personality := by
  obtain ⟨haddress, header, length, fieldsStop, data, dataRead, hheader, -, hcie, hlies⟩ :=
    parseFde_eq_ok_iff.mp hparse
  obtain ⟨haddress', header', length', fieldsStop', data', dataRead', hheader', -, hcie', hlies'⟩ :=
    parseFde_eq_ok_iff.mp hagain
  obtain rfl := entryHeader_eq_of_concurs h hheader hheader'
  obtain ⟨personality, hpersonality⟩ := parseCie_again h hcie hcie'
  have hfields' := hlies'.fields
  have hrest' := hlies'.rest
  have hlsda' := hlies'.lsda
  rw [hpersonality] at hfields' hrest' hlsda'
  rw [show fde.cie.augmentation.fdeEncoding =
    (fde.cie.withPersonality personality).augmentation.fdeEncoding from rfl] at hencoding
  rw [readFdeFields_free hencoding] at hfields'
  obtain ⟨hpair, rfl⟩ := readFdeFields_agreeAt h _ _ _ _ _ _ _ hlies.fields hfields'
  obtain ⟨hstart, rfl⟩ := Prod.mk.inj hpair
  obtain ⟨rfl, hprogram⟩ := hlies.rest.eq_of_concurs h hrest'
  have hfound : readLsdaPointer second bases fde.cie.augmentation fde.start data.start =
      .ok again.lsda dataRead' := by
    rw [hstart]
    exact hlsda'
  obtain ⟨hlsda, -⟩ := readLsdaPointer_agreeAt h _ _ _ _ _ _ _ _ hlies.lsda hfound
  have hstop : fde.stop = again.stop := by rw [hlies.stop, hlies'.stop, hstart, h.arch_eq]
  refine ⟨personality, ?_⟩
  cases fde
  cases again
  simp only [Fde.withPersonality, Fde.mk.injEq] at *
  grind

/-- A start that is stored relative to the function is counted twice when the
FDE is parsed again. -/
theorem parseFde_doubled (h : first.Concurs second) {fde again : Fde}
    (hparse : parseFde first address frameSection bases = .ok fde) (hfunction : bases.function = 0)
    (hencoding : fde.cie.augmentation.fdeEncoding.base = .ok .function)
    (hdirect : fde.cie.augmentation.fdeEncoding.isIndirect = false)
    (hagain : parseFde second address frameSection { bases with function := fde.start } =
      .ok again) :
    again.start = (fde.start + fde.start) &&& first.arch.wordMask := by
  obtain ⟨-, header, length, fieldsStop, data, dataRead, hheader, -, hcie, hlies⟩ :=
    parseFde_eq_ok_iff.mp hparse
  obtain ⟨-, header', length', _, _, _, hheader', -, hcie', hlies'⟩ := parseFde_eq_ok_iff.mp hagain
  obtain rfl := entryHeader_eq_of_concurs h hheader hheader'
  obtain ⟨personality, hpersonality⟩ := parseCie_again h hcie hcie'
  have hfields' := hlies'.fields
  rw [hpersonality] at hfields'
  obtain ⟨start, next, hread, hlength⟩ := Action.ok_of_bind hlies.fields
  obtain ⟨_, _, -, ⟨⟩⟩ := Action.ok_of_bind hlength
  obtain ⟨start', next', hread', hlength'⟩ := Action.ok_of_bind hfields'
  obtain ⟨_, _, -, ⟨⟩⟩ := Action.ok_of_bind hlength'
  have hdoubled := Target.readPointer_doubled hencoding hdirect hfunction hread
  exact (Target.readPointer_agreeAt h _ _ _ _ _ _ _ hdoubled hread').1.symm

/-- Where neither the start nor the personality is relative to the function,
an FDE parsed again is the same. -/
theorem parseFde_free {fde : Fde} (h : parseFde target address frameSection bases = .ok fde)
    (hencoding : fde.cie.augmentation.fdeEncoding.FunctionFree)
    (hfree : CieFree target bases fde.cie.address) (function : UInt64) :
    parseFde target address frameSection { bases with function } = .ok fde := by
  obtain ⟨haddress, header, length, fieldsStop, data, dataRead, hheader, hkind, hcie, hlies⟩ :=
    parseFde_eq_ok_iff.mp h
  rw [(parseCie_eq_ok_iff.mp hcie).1] at hfree
  exact parseFde_eq_ok_iff.mpr ⟨haddress, header, length, fieldsStop, data, dataRead, hheader,
    hkind, parseCie_free hcie hfree function,
    (congrFun (readFdeFields_free hencoding function) _).trans hlies.fields, hlies.rest,
    hlies.lsda, hlies.stop, hlies.covers⟩

end Cfi
end StackWalk
