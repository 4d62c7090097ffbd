import StackWalk.Proofs.Cfi.SectionSearch

/-!
# Procedures without code

An FDE may describe a procedure without code: its fields are all there, and its
length is zero.  It is refused like one that cannot be read, and a search along
the chain ends with the first entry that is refused.  So it hides whatever
comes behind it, although the search table leads to that all the same.
-/

namespace StackWalk.Cfi

variable {target : Target} {frameSection : FrameSection} {bases : PointerBases}
  {stop ip address : UInt64}

/-- At the address stands an FDE that covers no code.  Its fields can all be
read, and its length is zero. -/
def CoversNothing (target : Target) (frameSection : FrameSection) (bases : PointerBases)
    (address : UInt64) : Prop :=
  ∃ header cie start behindStart behindLength lsda behindData program,
    entryHeader target address = .ok header ∧ header.isCie frameSection = false ∧
    parseCie target (header.cieAddress frameSection) frameSection bases = .ok cie ∧
    target.readPointer cie.augmentation.fdeEncoding bases header.body = .ok start behindStart ∧
    target.readPointer cie.augmentation.fdeEncoding.formatOnly bases behindStart =
      .ok 0 behindLength ∧
    readLsda target bases cie.augmentation start behindLength = .ok lsda behindData ∧
    restOfEntry behindData header.stop .fdeOverruns = .ok program

theorem CoversNothing.fdeAt_eq (h : CoversNothing target frameSection bases address) :
    fdeAt target frameSection bases address = .error (.invalidArgument .fdeEmptyRange) := by
  obtain ⟨header, cie, start, behindStart, behindLength, lsda, behindData, program, hheader, hkind,
    hcie, hstart, hlength, hlsda, hprogram⟩ := h
  have hempty : ¬start < (start + 0) &&& target.arch.wordMask := by
    rw [UInt64.add_zero, UInt64.not_lt, UInt64.le_iff_toNat_le, UInt64.toNat_and]
    exact Nat.and_le_left
  have hbody : readFdeBody target bases address cie header.stop header.body =
      .error (.invalidArgument .fdeEmptyRange) behindData := by
    unfold readFdeBody
    rw [Action.bind_eq_of_ok hstart, Action.bind_eq_of_ok hlength, Action.bind_eq_of_ok hlsda,
      Action.get_bind_apply, hprogram, Action.lift_ok_bind_apply, if_neg hempty]
    rfl
  simp only [fdeAt, parseFde, hheader, ok_bind, hkind, Bool.false_eq_true, if_false, hcie,
    Action.answer, Action.perform, hbody, error_bind]

/-- The entries of a chain can be read, or are FDEs that cover no code. -/
def ReadsButForEmpty (target : Target) (frameSection : FrameSection) (bases : PointerBases)
    (stop address : UInt64) : Prop :=
  ∀ addr ∈ chainFrom target stop address,
    (∃ found, fdeAt target frameSection bases addr = .ok found) ∨
      CoversNothing target frameSection bases addr

/-- The FDE at `addr` is the first of the chain that holds `ip`, with the
entries of `before` in front of it. -/
structure FirstHolds (target : Target) (frameSection : FrameSection) (bases : PointerBases)
    (stop ip address : UInt64) (before : List UInt64) (addr : UInt64) (fde : Fde) : Prop where
  splits : ∃ after, chainFrom target stop address = before ++ addr :: after
  parses : parseFde target addr frameSection bases = .ok fde
  holds : fde.contains ip = true
  first : ∀ earlier ∈ before, ∀ other,
    parseFde target earlier frameSection bases = .ok other → other.contains ip = false

theorem exists_first_mem {α : Type} {p : α → Prop} {xs : List α} (h : ∃ x ∈ xs, p x) :
    ∃ before x after, xs = before ++ x :: after ∧ p x ∧ ∀ earlier ∈ before, ¬p earlier := by
  induction xs with
  | nil => simp at h
  | cons x xs ih =>
      by_cases hx : p x
      · exact ⟨[], x, xs, rfl, hx, nofun⟩
      · obtain ⟨y, hmem, hy⟩ := h
        have hrest : ∃ y ∈ xs, p y := by
          rcases List.mem_cons.mp hmem with rfl | hmem
          · exact absurd hy hx
          · exact ⟨y, hmem, hy⟩
        obtain ⟨before, found, after, rfl, hfound, hbefore⟩ := ih hrest
        exact ⟨x :: before, found, after, rfl, hfound, List.forall_mem_cons.mpr ⟨hx, hbefore⟩⟩

theorem exists_firstHolds
    (hcovered : ∃ addr ∈ chainFrom target stop address, ∃ fde,
      parseFde target addr frameSection bases = .ok fde ∧ fde.contains ip = true) :
    ∃ before addr fde, FirstHolds target frameSection bases stop ip address before addr fde := by
  obtain ⟨before, addr, after, hsplit, ⟨fde, hparse, hholds⟩, hfirst⟩ := exists_first_mem hcovered
  refine ⟨before, addr, fde, ⟨after, hsplit⟩, hparse, hholds, ?_⟩
  intro earlier hmem other hother
  by_contra hcontains
  exact hfirst earlier hmem ⟨other, hother, by simpa using hcontains⟩

/-- An entry in front of the first that holds the address passes, unless it
covers nothing. -/
theorem FirstHolds.passes {before : List UInt64} {addr : UInt64} {fde : Fde}
    (hfirst : FirstHolds target frameSection bases stop ip address before addr fde)
    (hchain : ReadsButForEmpty target frameSection bases stop address) {earlier : UInt64}
    (hmem : earlier ∈ before) (hfull : ¬CoversNothing target frameSection bases earlier) :
    Passes target frameSection bases ip earlier := by
  obtain ⟨after, hsplit⟩ := hfirst.splits
  have hmemChain : earlier ∈ chainFrom target stop address := by
    rw [hsplit]
    exact List.mem_append_left _ hmem
  obtain ⟨found, hfound⟩ := (hchain earlier hmemChain).resolve_right hfull
  refine ⟨found, hfound, ?_⟩
  rintro other rfl
  exact hfirst.first earlier hmem other (fdeAt_eq_some_iff.mp hfound)

/-- The search finds the first FDE that holds the address exactly if none that
covers nothing stands in front of it; otherwise it is refused. -/
theorem FirstHolds.searchSection_eq {before : List UInt64} {addr : UInt64} {fde : Fde}
    (hfirst : FirstHolds target frameSection bases stop ip address before addr fde)
    (hchain : ReadsButForEmpty target frameSection bases stop address) :
    ((∀ earlier ∈ before, ¬CoversNothing target frameSection bases earlier) ∧
      searchSection target frameSection bases stop ip address = .ok fde) ∨
    ((∃ earlier ∈ before, CoversNothing target frameSection bases earlier) ∧
      searchSection target frameSection bases stop ip address =
        .error (.invalidArgument .fdeEmptyRange)) := by
  obtain ⟨after, hsplit⟩ := hfirst.splits
  by_cases hempty : ∃ earlier ∈ before, CoversNothing target frameSection bases earlier
  · right
    refine ⟨hempty, ?_⟩
    obtain ⟨front, empty, back, rfl, hnothing, hfront⟩ := exists_first_mem hempty
    rw [List.append_assoc, List.cons_append] at hsplit
    refine (searchSection_eq_iff (by simp)).mpr ⟨front, empty, _, hsplit,
      answerAt_eq_error_iff.mpr hnothing.fdeAt_eq, fun earlier hmem => ?_⟩
    exact hfirst.passes hchain (List.mem_append_left _ hmem) (hfront earlier hmem)
  · left
    have hfull : ∀ earlier ∈ before, ¬CoversNothing target frameSection bases earlier :=
      fun earlier hmem hnothing => hempty ⟨earlier, hmem, hnothing⟩
    refine ⟨hfull, (searchSection_eq_iff (by simp)).mpr ⟨before, addr, after, hsplit,
      answerAt_eq_ok_iff.mpr ⟨hfirst.parses, hfirst.holds⟩, fun earlier hmem => ?_⟩⟩
    exact hfirst.passes hchain hmem (hfull earlier hmem)

/-! ## The search table -/

/-- The header at `hdr` has a table that lists the FDE, and no other procedure
of the table begins inside it. -/
def InTable (target : Target) (hdr : UInt64) (fde : Fde) : Prop :=
  target.arch.addressSize < 256 ∧
    parseFde target fde.address .ehFrame { data := hdr } = .ok fde ∧
    ∃ header rest chain table listed, PointsTo target hdr header rest chain ∧
      HasTable target hdr header rest table ∧ table.Lists target listed ∧ fde ∈ listed ∧
      ∀ other ∈ listed, fde.contains other.start = true → other = fde

theorem InTable.findProcInHeader_eq {hdr : UInt64} {fde : Fde} (htable : InTable target hdr fde)
    (hholds : fde.contains ip = true) :
    findProcInHeader target hdr ip = .ok (fde.procInfo .ehFrame { data := hdr }) := by
  obtain ⟨hsmall, hparse, header, rest, chain, table, listed, hpoints, hhas, hlists, hmem,
    hapart⟩ := htable
  rw [← hhas.bases] at hparse
  rw [hpoints.lookUp hhas hsmall hlists, SearchTable.findFde_of_holds hlists hmem hparse hapart
    hholds]
  rfl

/-- An FDE of the chain holds the address, and no entry is refused but those
that cover nothing.  The search along the chain, also from a header without a
table, finds the first FDE that holds it exactly if none that covers nothing
stands in front of it, and is refused otherwise.  A search table leads to it in
either case. -/
theorem searchSection_behind_empty
    (hchain : ReadsButForEmpty target frameSection bases stop address)
    (hcovered : ∃ addr ∈ chainFrom target stop address, ∃ fde,
      parseFde target addr frameSection bases = .ok fde ∧ fde.contains ip = true) :
    ∃ before addr fde, FirstHolds target frameSection bases stop ip address before addr fde ∧
      (((∀ earlier ∈ before, ¬CoversNothing target frameSection bases earlier) ∧
          searchSection target frameSection bases stop ip address = .ok fde) ∨
        ((∃ earlier ∈ before, CoversNothing target frameSection bases earlier) ∧
          searchSection target frameSection bases stop ip address =
            .error (.invalidArgument .fdeEmptyRange))) ∧
      (∀ hdr header rest, frameSection = .ehFrame → bases = { data := hdr } → stop = maxWord →
        PointsTo target hdr (TableHeader.withoutTable header) rest address →
        findProcInHeader target hdr ip =
          (searchSection target frameSection bases stop ip address).map
            (·.procInfo frameSection bases)) ∧
      ∀ full hdr, InTable full hdr fde →
        findProcInHeader full hdr ip = .ok (fde.procInfo .ehFrame { data := hdr }) := by
  obtain ⟨before, addr, fde, hfirst⟩ := exists_firstHolds hcovered
  refine ⟨before, addr, fde, hfirst, hfirst.searchSection_eq hchain, ?_, ?_⟩
  · rintro hdr header rest rfl rfl rfl hpoints
    exact hpoints.scan rfl ip
  · intro full hdr htable
    exact htable.findProcInHeader_eq hfirst.holds

/-! ## An empty function in front of another -/

/-- The image of two functions, the later one without code. -/
def emptiedTarget (encodings : UInt64) : Target :=
  { twoFunctionsTarget encodings with
    loadWord := fun addr =>
      if addr = 0x1038 then .ok 0 else (twoFunctionsTarget encodings).loadWord addr }

/-- The later function without code, as the table lists it. -/
def emptiedFunction : Fde :=
  { laterFunction with stop := 0x4000 }

theorem coversNothing_emptied :
    CoversNothing (emptiedTarget 0xffff1b01) .ehFrame { data := 0x1000 } 0x102c :=
  ⟨⟨0x1030, 0x14, false, 0x1034, 0x103c⟩, sharedCie, 0x4000, 0x1038, 0x103c, 0, 0x103c,
    ⟨0x103c, 0x103c⟩, by cbv, rfl, by cbv, by cbv, by cbv, by cbv, by cbv⟩

theorem chainFrom_emptied :
    chainFrom (emptiedTarget 0xffff1b01) maxWord 0x101c = [0x101c, 0x102c, 0x103c] := by
  cbv

theorem readsButForEmpty_emptied :
    ReadsButForEmpty (emptiedTarget 0xffff1b01) .ehFrame { data := 0x1000 } maxWord 0x101c := by
  intro addr hmem
  rw [chainFrom_emptied] at hmem
  fin_cases hmem
  · exact .inl ⟨none, by cbv⟩
  · exact .inr coversNothing_emptied
  · exact .inl ⟨some earlierFunction, by cbv⟩

theorem covered_emptied :
    ∃ addr ∈ chainFrom (emptiedTarget 0xffff1b01) maxWord 0x101c, ∃ fde,
      parseFde (emptiedTarget 0xffff1b01) addr .ehFrame { data := 0x1000 } = .ok fde ∧
        fde.contains 0x300f = true := by
  rw [chainFrom_emptied]
  exact ⟨0x103c, by simp, earlierFunction, by cbv, by decide⟩

theorem inTable_emptied : InTable (emptiedTarget 0x3b031b01) 0x1000 earlierFunction := by
  have hlists : twoFunctionsTable.Lists (emptiedTarget 0x3b031b01)
      [earlierFunction, emptiedFunction] := by
    have hindex : ∀ i < 2, i = 0 ∨ i = 1 := by omega
    refine ⟨rfl, by decide, ?_, ?_, by simp [earlierFunction, emptiedFunction, laterFunction]⟩
    · intro i hi
      obtain rfl | rfl := hindex i hi
      · cbv
      · cbv
    · intro i hi
      obtain rfl | rfl := hindex i hi
      · cbv
      · cbv
  exact ⟨by decide, by cbv, twoFunctionsHeader, 0x1008, 0x101c, twoFunctionsTable, _,
    ⟨rfl, 0x1004, by cbv, by cbv⟩, ⟨by decide, by cbv, ⟨4, by cbv, rfl⟩, rfl, rfl⟩, hlists,
    by simp, by decide⟩

theorem FirstHolds.eq_of_emptied {before : List UInt64} {addr : UInt64} {fde : Fde}
    (hfirst : FirstHolds (emptiedTarget 0xffff1b01) .ehFrame { data := 0x1000 } maxWord 0x300f
      0x101c before addr fde) :
    before = [0x101c, 0x102c] ∧ fde = earlierFunction := by
  have hcie : parseFde (emptiedTarget 0xffff1b01) 0x101c .ehFrame { data := 0x1000 } =
      .error (.invalidArgument .notAnFde) := by cbv
  have hempty : parseFde (emptiedTarget 0xffff1b01) 0x102c .ehFrame { data := 0x1000 } =
      .error (.invalidArgument .fdeEmptyRange) := by cbv
  have hearlier : parseFde (emptiedTarget 0xffff1b01) 0x103c .ehFrame { data := 0x1000 } =
      .ok earlierFunction := by cbv
  obtain ⟨after, hsplit⟩ := hfirst.splits
  have hparse := hfirst.parses
  rw [chainFrom_emptied] at hsplit
  rcases before with _ | ⟨_, _ | ⟨_, _ | ⟨_, _⟩⟩⟩ <;> simp at hsplit
  · obtain ⟨rfl, -⟩ := hsplit
    cases hcie.symm.trans hparse
  · obtain ⟨-, rfl, -⟩ := hsplit
    cases hempty.symm.trans hparse
  · obtain ⟨rfl, rfl, rfl, -⟩ := hsplit
    exact ⟨rfl, (Except.ok.inj (hearlier.symm.trans hparse)).symm⟩

/-- The table leads to the earlier function, and the search along the chain
ends at the empty one. -/
theorem searchSection_behind_empty_emptied :
    searchSection (emptiedTarget 0xffff1b01) .ehFrame { data := 0x1000 } maxWord 0x300f 0x101c =
        .error (.invalidArgument .fdeEmptyRange) ∧
      findProcInHeader (emptiedTarget 0xffff1b01) 0x1000 0x300f =
        .error (.invalidArgument .fdeEmptyRange) ∧
      findProcInHeader (emptiedTarget 0x3b031b01) 0x1000 0x300f =
        .ok (earlierFunction.procInfo .ehFrame { data := 0x1000 }) := by
  obtain ⟨before, addr, fde, hfirst, hsearch, hheader, htable⟩ :=
    searchSection_behind_empty readsButForEmpty_emptied covered_emptied
  obtain ⟨rfl, rfl⟩ := hfirst.eq_of_emptied
  obtain ⟨-, hrefused⟩ := hsearch.resolve_left fun hfound =>
    hfound.1 0x102c (by simp) coversNothing_emptied
  have hscan := hheader 0x1000 twoFunctionsHeader 0x1008 rfl rfl rfl ⟨rfl, 0x1004, by cbv, by cbv⟩
  rw [hrefused] at hscan
  exact ⟨hrefused, hscan, htable _ 0x1000 inTable_emptied⟩

/-- An FDE that covers nothing hides one behind it that holds the address. -/
theorem not_searchSection_finds_covering :
    ¬∀ (target : Target) (bases : PointerBases) (stop ip address : UInt64),
      ReadsButForEmpty target .ehFrame bases stop address →
      (∃ addr ∈ chainFrom target stop address, ∃ fde,
        parseFde target addr .ehFrame bases = .ok fde ∧ fde.contains ip = true) →
      ∃ fde, searchSection target .ehFrame bases stop ip address = .ok fde ∧
        fde.contains ip = true := by
  intro hfinds
  obtain ⟨fde, hfound, -⟩ := hfinds (emptiedTarget 0xffff1b01) { data := 0x1000 } maxWord 0x300f
    0x101c readsButForEmpty_emptied covered_emptied
  have hrefused : searchSection (emptiedTarget 0xffff1b01) .ehFrame { data := 0x1000 } maxWord
      0x300f 0x101c = .error (.invalidArgument .fdeEmptyRange) := by cbv
  rw [hrefused] at hfound
  cases hfound

end StackWalk.Cfi
