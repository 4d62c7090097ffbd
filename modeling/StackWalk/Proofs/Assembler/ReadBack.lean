import StackWalk.Arch.Shipped
import StackWalk.Proofs.Assembler.Layout
import StackWalk.Proofs.Cfi.FrameChain

/-!
# Sections are read back as they were laid out

Where the numbers of a section fit their fields, the reader of shared entries
finds the factors an entry was laid out with, the reader of descriptions finds
the shared entry and the range, and a search from the first entry on finds the
first description that covers an address.
-/

namespace StackWalk.Assembler

open Cfi

def EntrySpec.isCie : EntrySpec → Bool
  | .cie .. => true
  | .fde .. => false

def EntrySpec.covers (ip : UInt64) : EntrySpec → Bool
  | .cie .. => false
  | .fde _ start stop _ => start ≤ ip && ip < stop

theorem exists_cie_of_any {specs : List EntrySpec} {index : Nat}
    (h : specs[index]?.any EntrySpec.isCie = true) :
    ∃ codeAlign dataAlign returnAddress program,
      specs[index]? = some (.cie codeAlign dataAlign returnAddress program) := by
  cases hspec : specs[index]? with
  | none => simp [hspec] at h
  | some spec =>
      cases spec with
      | cie codeAlign dataAlign returnAddress program =>
          exact ⟨codeAlign, dataAlign, returnAddress, program, rfl⟩
      | fde => simp [hspec, EntrySpec.isCie] at h

theorem exists_eq_append_cons {specs : List EntrySpec} {spec : EntrySpec} {index : Nat}
    (h : specs[index]? = some spec) :
    ∃ before after, specs = before ++ spec :: after ∧ before.length = index := by
  obtain ⟨hlt, hspec⟩ := List.getElem?_eq_some_iff.mp h
  refine ⟨specs.take index, specs.drop (index + 1), ?_, List.length_take_of_le (by omega)⟩
  rw [← hspec, List.getElem_cons_drop, List.take_append_drop]

namespace EhFrame

/-- The next entry can be read back: a shared entry has factors and a column
that exist, a description a range of words and a shared entry before it, and
the length and the distance fit into four bytes.  The length does not count
its own four. -/
def Admits (frame : EhFrame) (before : List EntrySpec) (spec : EntrySpec) : Prop :=
  (frame.entryBytes spec).length < 2 ^ 32 + 4 ∧
    match spec with
    | .cie codeAlign dataAlign returnAddress _ =>
        codeAlign ≠ 0 ∧ dataAlign ≠ 0 ∧ returnAddress.toNat < frame.arch.numRegs
    | .fde cie start stop _ =>
        start < stop ∧ stop ≤ frame.arch.wordMask ∧
          before[cie]?.any EntrySpec.isCie ∧
          (frame.here + 4 - frame.addressOf cie).toNat < 2 ^ 32

instance (frame : EhFrame) (before : List EntrySpec) (spec : EntrySpec) :
    Decidable (frame.Admits before spec) :=
  match spec with
  | .cie .. => inferInstanceAs (Decidable (_ ∧ _ ∧ _ ∧ _))
  | .fde .. => inferInstanceAs (Decidable (_ ∧ _ ∧ _ ∧ _ ∧ _))

/-- Each entry can be read back, and the section ends below the top of the
address space. -/
structure Fits (arch : Arch) (base : UInt64) (specs : List EntrySpec) : Prop where
  admits : ∀ i, ∀ h : i < specs.length,
    (layOut arch base (specs.take i)).Admits (specs.take i) specs[i]
  room : base.toNat + (layOut arch base specs).bytes.length + 8 ≤ 2 ^ 64

instance (arch : Arch) (base : UInt64) (specs : List EntrySpec) :
    Decidable (Fits arch base specs) :=
  decidable_of_iff (_ ∧ _) ⟨fun h => ⟨h.1, h.2⟩, fun h => ⟨h.admits, h.room⟩⟩

/-- The program of an entry is the one it was laid out with, and instructions
that do nothing behind it. -/
def HoldsProgram (target : Target) (span : Span) (program : List Call) : Prop :=
  ∃ padding < target.arch.addressSize,
    target.readBytes span.start (span.stop - span.start).toNat =
      .ok (assemble program ++ List.replicate padding 0)

/-- A section that fits stands in memory, with zero bytes behind it. -/
structure Installed (target : Target) (base : UInt64) (specs : List EntrySpec) : Prop where
  addressSize : target.arch.addressSize = 4 ∨ target.arch.addressSize = 8
  fits : Fits target.arch base specs
  holds : target.Holds base ((layOut target.arch base specs).bytes ++ List.replicate 8 0)

namespace Installed

variable {target : Target} {base : UInt64} {specs before after : List EntrySpec}
  {spec : EntrySpec}

theorem admits_next (h : Installed target base specs) (hsplit : specs = before ++ spec :: after) :
    (layOut target.arch base before).Admits before spec := by
  have hnext := h.fits.admits before.length (by rw [hsplit]; simp)
  simpa [hsplit] using hnext

theorem toNat_here (h : Installed target base specs) (hsplit : specs = before ++ after) :
    (layOut target.arch base before).here.toNat =
      base.toNat + (layOut target.arch base before).bytes.length := by
  have hroom := h.fits.room
  have hextends := extends_layOut target.arch base before after
  rw [← hsplit] at hextends
  have hlength := hextends.bytes.length_le
  rw [here, base_layOut]
  exact Target.toNat_add_ofNat (by omega)

/-- The section up to the end of the next entry. -/
theorem bytes_through_next (target : Target) (base : UInt64)
    (hsplit : specs = before ++ spec :: after) :
    (layOut target.arch base before).bytes ++ (layOut target.arch base before).entryBytes spec <+:
      (layOut target.arch base specs).bytes := by
  rw [hsplit, ← bytes_layOut_next]
  have hextends := extends_layOut target.arch base (before ++ [spec]) after
  simpa using hextends.bytes

theorem toNat_identifier_lt (h : Installed target base specs)
    (hsplit : specs = before ++ spec :: after) :
    ((layOut target.arch base before).identifier spec).toNat < 2 ^ 32 := by
  have hadmits := h.admits_next hsplit
  cases spec with
  | cie => exact Nat.two_pow_pos 32
  | fde => exact hadmits.2.2.2.2

theorem framed (h : Installed target base specs) (hsplit : specs = before ++ spec :: after) :
    Framed target (layOut target.arch base before).here
      (UInt64.ofNat ((layOut target.arch base before).lengthOf spec))
      ((layOut target.arch base before).identifier spec)
      ((layOut target.arch base before).fields spec)
      ((layOut target.arch base before).paddedProgram spec) := by
  have hbytes := bytes_through_next target base hsplit
  have hroom := h.fits.room
  have hhere := h.toNat_here hsplit
  have hend := hbytes.length_le
  have hshort := (h.admits_next hsplit).1
  rw [List.length_append, length_entryBytes] at hend
  rw [length_entryBytes] at hshort
  have hlength : (UInt64.ofNat ((layOut target.arch base before).lengthOf spec)).toNat =
      (layOut target.arch base before).lengthOf spec :=
    UInt64.toNat_ofNat_of_lt' (Nat.lt_trans (by omega) (show 2 ^ 32 < 2 ^ 64 by decide))
  constructor
  case holds =>
    have hholds := (h.holds.of_begins (List.prefix_append _ _)).of_begins hbytes
    have hentry := (Target.holds_append.mp hholds).2
    rw [entryBytes_eq] at hentry
    simpa [here, uint] using hentry
  case length_eq => rw [hlength, lengthOf]
  case short =>
    -- The length is a multiple of four, so it is not the mark of a longer one.
    have hmod := length_entryBytes_mod (layOut target.arch base before)
      (by rw [arch_layOut]; have := h.addressSize; omega) spec
    rw [length_entryBytes, arch_layOut] at hmod
    rw [hlength]
    rcases h.addressSize with hsize | hsize <;> rw [hsize] at hmod <;> omega
  case id_lt => exact h.toNat_identifier_lt hsplit
  case room =>
    rw [hhere, hlength]
    omega

theorem stop_eq (before : List EntrySpec) (spec : EntrySpec) :
    (layOut target.arch base before).here + 4 +
        UInt64.ofNat ((layOut target.arch base before).lengthOf spec) =
      (layOut target.arch base (before ++ [spec])).here := by
  rw [here_layOut_next, length_entryBytes, UInt64.ofNat_add, UInt64.add_assoc]
  rfl

theorem holdsProgram (h : Installed target base specs) (hsplit : specs = before ++ spec :: after) :
    HoldsProgram target (programSpan (layOut target.arch base before) spec) spec.program := by
  refine ⟨(layOut target.arch base before).padding spec, ?_, (h.framed hsplit).readBytes_rest⟩
  have hsize := h.addressSize
  rw [padding, arch_layOut]
  exact Nat.mod_lt _ (by omega)

theorem parseCie_eq {codeAlign : UInt64} {dataAlign : Int64} {returnAddress : UInt8}
    {program : List Call} (h : Installed target base specs)
    (hsplit : specs = before ++ .cie codeAlign dataAlign returnAddress program :: after)
    (bases : PointerBases) :
    parseCie target (layOut target.arch base before).here .ehFrame bases =
      .ok { address := (layOut target.arch base before).here
            version := 1
            augmentation := plainAugmentation
            codeAlign, dataAlign
            returnAddress := returnAddress.toNat
            program := programSpan (layOut target.arch base before)
              (.cie codeAlign dataAlign returnAddress program) } := by
  obtain ⟨-, hcode, hdata, hcolumn⟩ := h.admits_next hsplit
  rw [arch_layOut] at hcolumn
  exact Framed.parseCie_eq (h.framed hsplit) hcode hdata hcolumn bases

/-- A description stands behind its shared entry. -/
theorem identifier_ne_zero {start stop : UInt64} {program : List Call}
    (h : Installed target base specs) {first rest : List EntrySpec} {shared : EntrySpec}
    (hbefore : before = first ++ shared :: rest)
    (hsplit : specs = before ++ .fde first.length start stop program :: after) :
    (layOut target.arch base before).identifier (.fde first.length start stop program) ≠ 0 := by
  have hearlier : specs =
      first ++ (shared :: rest ++ .fde first.length start stop program :: after) := by
    rw [hsplit, hbefore, List.append_assoc]
  have hlength := (extends_layOut target.arch base first (shared :: rest)).bytes.length_le
  rw [← hbefore] at hlength
  have hfirst := h.toNat_here hearlier
  have hhere := h.toNat_here hsplit
  have hroom := (h.framed hsplit).room
  have hfour : ((layOut target.arch base before).here + 4).toNat =
      (layOut target.arch base before).here.toNat + 4 :=
    @Target.toNat_add_ofNat _ 4 (by omega)
  have hdistance : ((layOut target.arch base before).here + 4 -
      (layOut target.arch base first).here).toNat =
        (layOut target.arch base before).here.toNat + 4 -
          (layOut target.arch base first).here.toNat := by
    rw [UInt64.toNat_sub_of_le, hfour]
    rw [UInt64.le_iff_toNat_le]
    omega
  change (layOut target.arch base before).here + 4 -
    (layOut target.arch base before).addressOf first.length ≠ 0
  rw [addressOf_layOut_next _ _ hbefore]
  intro hzero
  rw [hzero, UInt64.toNat_zero] at hdistance
  omega

theorem parseFde_eq {codeAlign start stop : UInt64} {dataAlign : Int64} {returnAddress : UInt8}
    {shared program : List Call} (h : Installed target base specs) {first rest : List EntrySpec}
    (hbefore : before = first ++ .cie codeAlign dataAlign returnAddress shared :: rest)
    (hsplit : specs = before ++ .fde first.length start stop program :: after)
    (bases : PointerBases) :
    ∃ cie, parseCie target (layOut target.arch base first).here .ehFrame bases = .ok cie ∧
      parseFde target (layOut target.arch base before).here .ehFrame bases =
        .ok { address := (layOut target.arch base before).here
              cie, start, stop
              lsda := 0
              program := programSpan (layOut target.arch base before)
                (.fde first.length start stop program) } := by
  obtain ⟨-, hrange, hmask, -, -⟩ := h.admits_next hsplit
  rw [arch_layOut] at hmask
  have hearlier : specs = first ++ .cie codeAlign dataAlign returnAddress shared ::
      (rest ++ .fde first.length start stop program :: after) := by
    rw [hsplit, hbefore, List.append_assoc, List.cons_append]
  obtain ⟨cie, hcie, hplain⟩ : ∃ cie,
      parseCie target (layOut target.arch base first).here .ehFrame bases = .ok cie ∧
        cie.augmentation = plainAugmentation :=
    ⟨_, h.parseCie_eq hearlier bases, rfl⟩
  have hplace : (layOut target.arch base before).here + 4 -
      (layOut target.arch base before).identifier (.fde first.length start stop program) =
        (layOut target.arch base first).here := by
    change _ - ((layOut target.arch base before).here + 4 -
      (layOut target.arch base before).addressOf first.length) = _
    rw [addressOf_layOut_next _ _ hbefore]
    grind
  have hfields : (layOut target.arch base before).fields (.fde first.length start stop program) =
      plainFdeFields target.arch start stop := by
    rw [fields, arch_layOut]
  have hframed := h.framed hsplit
  rw [hfields] at hframed
  refine ⟨cie, hcie, ?_⟩
  rw [← hplace] at hcie
  rw [programSpan, hfields]
  exact hframed.parseFde_eq (h.identifier_ne_zero hbefore hsplit) bases hcie hplain hrange hmask

/-- Behind the last entry stand zero bytes, and no header begins with those. -/
theorem entryHeader_here (h : Installed target base specs) :
    entryHeader target (layOut target.arch base specs).here =
      .error (.invalidArgument .emptyEntry) := by
  have hroom := h.fits.room
  have hhere := h.toNat_here (List.append_nil specs).symm
  have hzeros : bytesOfWord target.arch.endian 4 0 <+: List.replicate 8 0 := by
    cases target.arch.endian <;> decide
  have hholds : target.Holds (layOut target.arch base specs).here
      (bytesOfWord target.arch.endian 4 0) := by
    have hend := (Target.holds_append.mp h.holds).2.of_begins hzeros
    rwa [here, base_layOut]
  have hlength : readEntryLength target (layOut target.arch base specs).here = .ok (0, false) _ :=
    reads_readEntryLength (by decide) hholds (by rw [length_bytesOfWord]; omega)
  unfold entryHeader Action.answer Action.perform readEntryHeader
  rw [Action.bind_eq_of_ok hlength]
  rfl

/-! ## Searching -/

theorem here_lt_of_next (h : Installed target base specs)
    (hsplit : specs = before ++ spec :: after) {stop : UInt64}
    (hstop : (layOut target.arch base specs).here ≤ stop) :
    (layOut target.arch base before).here < stop := by
  have hend := (bytes_through_next target base hsplit).length_le
  have hhere := h.toNat_here hsplit
  have hlast := h.toNat_here (List.append_nil specs).symm
  rw [List.length_append, length_entryBytes] at hend
  rw [UInt64.le_iff_toNat_le] at hstop
  rw [UInt64.lt_iff_toNat_lt]
  omega

end Installed

/-- The description of the first entry that covers an address, of those from the
entry at `index` on. -/
def coveringFrom (target : Target) (bases : PointerBases) (frame : EhFrame) (ip : UInt64)
    (index : Nat) (rest : List EntrySpec) : Except UnwindError Fde :=
  match rest.findIdx? (EntrySpec.covers ip) with
  | some k => parseFde target (frame.addressOf (k + index)) .ehFrame bases
  | none => .error (.noInfo ip)

section CoveringFrom

variable {target : Target} {bases : PointerBases} {frame : EhFrame} {ip : UInt64} {index : Nat}
  {spec : EntrySpec} {rest : List EntrySpec}

theorem coveringFrom_of_covers (h : spec.covers ip = true) :
    coveringFrom target bases frame ip index (spec :: rest) =
      parseFde target (frame.addressOf index) .ehFrame bases := by
  simp only [coveringFrom, List.findIdx?_cons, h, if_true, Nat.zero_add]

theorem coveringFrom_of_not_covers (h : spec.covers ip = false) :
    coveringFrom target bases frame ip index (spec :: rest) =
      coveringFrom target bases frame ip (index + 1) rest := by
  simp only [coveringFrom, List.findIdx?_cons, h, Bool.false_eq_true, if_false]
  cases rest.findIdx? (EntrySpec.covers ip) with
  | none => rfl
  | some k => simp [Nat.add_assoc, Nat.add_comm 1]

end CoveringFrom

/-- A search that has come to an entry goes on with what is left. -/
theorem Installed.searchSection_from {target : Target} {base : UInt64}
    {specs before after : List EntrySpec} (h : Installed target base specs) (bases : PointerBases)
    {stop : UInt64} (hstop : (layOut target.arch base specs).here ≤ stop) (ip : UInt64)
    (hsplit : specs = before ++ after) :
    searchSection target .ehFrame bases stop ip (layOut target.arch base before).here =
      coveringFrom target bases (layOut target.arch base specs) ip before.length after := by
  induction after generalizing before with
  | nil =>
      rw [List.append_nil] at hsplit
      rw [← hsplit, searchSection_eq, h.entryHeader_here]
      simp [coveringFrom]
  | cons spec rest ih =>
      have hnext := @ih (before ++ [spec]) (by rw [hsplit]; simp)
      rw [List.length_append, List.length_singleton] at hnext
      rw [searchSection_eq, if_pos (h.here_lt_of_next hsplit hstop),
        (h.framed hsplit).entryHeader_eq]
      dsimp only
      rw [stop_eq, hnext]
      cases spec with
      | cie codeAlign dataAlign returnAddress program =>
          rw [if_pos (show EntryHeader.isCie _ .ehFrame = true from rfl)]
          exact (coveringFrom_of_not_covers rfl).symm
      | fde cie start stop program =>
          obtain ⟨-, -, -, hshared, -⟩ := h.admits_next hsplit
          obtain ⟨codeAlign, dataAlign, returnAddress, shared, hcie⟩ := exists_cie_of_any hshared
          obtain ⟨first, between, hbefore, rfl⟩ := exists_eq_append_cons hcie
          obtain ⟨cie, -, hparse⟩ := h.parseFde_eq hbefore hsplit bases
          have hkind := h.identifier_ne_zero hbefore hsplit
          rw [if_neg (by simpa [EntryHeader.isCie] using hkind), hparse]
          cases hcovers : EntrySpec.covers ip (.fde first.length start stop program) with
          | true =>
              rw [coveringFrom_of_covers hcovers, addressOf_layOut_next _ _ hsplit, hparse]
              exact if_pos hcovers
          | false =>
              rw [coveringFrom_of_not_covers hcovers]
              exact if_neg (Bool.eq_false_iff.mp hcovers)

/-! ## What is laid out is read back -/

theorem install_eq (frame : EhFrame) (image : Image.WordImage) :
    frame.install image =
      image.writeBytes frame.arch frame.base (frame.bytes ++ List.replicate 8 0) := by
  rw [Image.WordImage.writeBytes_append]
  rfl

theorem addressSize_of_shipped {arch : Arch} (h : arch ∈ Arch.shipped) :
    arch.addressSize = 4 ∨ arch.addressSize = 8 := by
  revert arch
  decide

theorem installed_install {arch : Arch} {base : UInt64} {specs : List EntrySpec}
    (harch : arch ∈ Arch.shipped) (hfits : Fits arch base specs) (image : Image.WordImage)
    (validate : Bool) :
    Installed ((Image.WordImage.space arch).target ((layOut arch base specs).install image) ()
      validate) base specs := by
  have hsize := addressSize_of_shipped harch
  have hroom := hfits.room
  have hlength : ((layOut arch base specs).bytes ++ List.replicate 8 0).length ≤ 2 ^ 64 := by
    simp
    omega
  rw [install_eq, arch_layOut, base_layOut]
  exact ⟨hsize, hfits,
    Image.WordImage.holds_writeBytes (by omega) (by omega) validate hlength⟩

/-- The readers find in memory what the entries of a section say. -/
structure ReadsBack (target : Target) (bases : PointerBases) (frame : EhFrame)
    (specs : List EntrySpec) : Prop where
  cie : ∀ i codeAlign dataAlign returnAddress program,
    specs[i]? = some (.cie codeAlign dataAlign returnAddress program) →
      ∃ cie, parseCie target (frame.addressOf i) .ehFrame bases = .ok cie ∧
        cie.codeAlign = codeAlign ∧ cie.dataAlign = dataAlign ∧
        cie.returnAddress = returnAddress.toNat ∧ HoldsProgram target cie.program program
  fde : ∀ i shared start stop program, specs[i]? = some (.fde shared start stop program) →
    ∃ fde, parseFde target (frame.addressOf i) .ehFrame bases = .ok fde ∧
      parseCie target (frame.addressOf shared) .ehFrame bases = .ok fde.cie ∧
      fde.start = start ∧ fde.stop = stop ∧ HoldsProgram target fde.program program
  search : ∀ stop ip, frame.here ≤ stop →
    searchSection target .ehFrame bases stop ip frame.base =
      match specs.findIdx? (EntrySpec.covers ip) with
      | some i => parseFde target (frame.addressOf i) .ehFrame bases
      | none => .error (.noInfo ip)

theorem Installed.readsBack {target : Target} {base : UInt64} {specs : List EntrySpec}
    (h : Installed target base specs) (bases : PointerBases) :
    ReadsBack target bases (layOut target.arch base specs) specs := by
  constructor
  case cie =>
    intro i codeAlign dataAlign returnAddress program hspec
    obtain ⟨before, after, hsplit, rfl⟩ := exists_eq_append_cons hspec
    rw [addressOf_layOut_next _ _ hsplit]
    exact ⟨_, h.parseCie_eq hsplit bases, rfl, rfl, rfl, h.holdsProgram hsplit⟩
  case fde =>
    intro i shared start stop program hspec
    obtain ⟨before, after, hsplit, rfl⟩ := exists_eq_append_cons hspec
    obtain ⟨-, -, -, hshared, -⟩ := h.admits_next hsplit
    obtain ⟨codeAlign, dataAlign, returnAddress, sharedProgram, hcie⟩ := exists_cie_of_any hshared
    obtain ⟨first, between, hbefore, rfl⟩ := exists_eq_append_cons hcie
    obtain ⟨cie, hparseCie, hparse⟩ := h.parseFde_eq hbefore hsplit bases
    have hplace : (layOut target.arch base specs).addressOf first.length =
        (layOut target.arch base first).here := by
      rw [hsplit, addressOf_layOut_append (by rw [hbefore]; simp),
        addressOf_layOut_next _ _ hbefore]
    rw [addressOf_layOut_next _ _ hsplit, hplace]
    exact ⟨_, hparse, hparseCie, rfl, rfl, h.holdsProgram hsplit⟩
  case search =>
    intro stop ip hstop
    have hsearch := h.searchSection_from bases hstop ip (List.nil_append specs).symm
    have hstart : (layOut target.arch base []).here = (layOut target.arch base specs).base := by
      rw [base_layOut]
      exact UInt64.add_zero base
    rw [hstart] at hsearch
    exact hsearch

/-- Whatever a section of entries that fit says is what the readers find once the section is
put into memory, whatever was there before. -/
theorem layOut_readsBack {arch : Arch} {base : UInt64} {specs : List EntrySpec}
    (harch : arch ∈ Arch.shipped) (hfits : Fits arch base specs) (image : Image.WordImage)
    (validate : Bool) (bases : PointerBases) :
    ReadsBack ((Image.WordImage.space arch).target ((layOut arch base specs).install image) ()
      validate) bases (layOut arch base specs) specs :=
  (installed_install harch hfits image validate).readsBack bases

/-- A shared entry and two procedures next to each other. -/
def twoProcedures : List EntrySpec :=
  [.cie 1 (-4) 8 [.defCfa 4 4, .offset 8 1],
    .fde 0 0x8000 0x8040 [.advance 1, .defCfaOffset 8],
    .fde 0 0x8040 0x8200 []]

theorem layOut_readsBack_twoProcedures :
    Fits .x86 0x4000 twoProcedures ∧
      ReadsBack ((Image.WordImage.space .x86).target
        ((layOut .x86 0x4000 twoProcedures).install .empty) () true) {}
        (layOut .x86 0x4000 twoProcedures) twoProcedures := by
  have hfits : Fits .x86 0x4000 twoProcedures := by decide +kernel
  exact ⟨hfits, layOut_readsBack (by decide) hfits .empty true {}⟩

end EhFrame
end StackWalk.Assembler
