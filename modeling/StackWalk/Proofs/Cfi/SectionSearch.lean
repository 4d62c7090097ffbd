import Mathlib.Tactic
import StackWalk.Proofs.Cfi.EntryErrors
import StackWalk.Proofs.Cfi.WithoutTable

/-!
# The first entry that decides

A section is a chain of entries: each begins where the one before ends.  The
chain does not depend on what is looked for, and a search walks along it up to
the first entry that decides: an FDE that holds the address, or one that cannot
be read.  If none does, nothing covers the address.
-/

namespace StackWalk.Cfi

variable {target : Target} {frameSection : FrameSection} {bases : PointerBases}
  {stop ip address : UInt64}

/-! ## The chain -/

/-- The addresses of the entries of a chain, each where the entry before ends.
The chain ends with the section or where no entry is; an entry whose header
cannot be read is the last. -/
def chainFrom (target : Target) (stop address : UInt64) : List UInt64 :=
  if address < stop then
    match _hheader : entryHeader target address with
    | .ok header => address :: chainFrom target stop header.stop
    | .error (.invalidArgument _) => []
    | .error _ => [address]
  else
    []
termination_by UInt64.size - address.toNat
decreasing_by
  have := entryHeader_advances _hheader
  have := header.stop.toNat_lt_size
  omega

/-- The FDE at an address, or none where a CIE stands. -/
def fdeAt (target : Target) (frameSection : FrameSection) (bases : PointerBases)
    (address : UInt64) : Except UnwindError (Option Fde) := do
  let header ← entryHeader target address
  if header.isCie frameSection then
    return none
  else
    let fde ← parseFde target address frameSection bases
    return some fde

/-- What stands at the address can be read and does not hold `ip`. -/
def Passes (target : Target) (frameSection : FrameSection) (bases : PointerBases)
    (ip address : UInt64) : Prop :=
  ∃ found, fdeAt target frameSection bases address = .ok found ∧
    ∀ fde ∈ found, fde.contains ip = false

theorem chainFrom_eq (target : Target) (stop address : UInt64) :
    chainFrom target stop address =
      if address < stop then
        match entryHeader target address with
        | .ok header => address :: chainFrom target stop header.stop
        | .error (.invalidArgument _) => []
        | .error _ => [address]
      else
        [] := by
  rw [chainFrom]
  split
  · cases hheader : entryHeader target address with
    | ok header => rfl
    | error e => cases e <;> rfl
  · rfl

theorem fdeAt_eq_some_iff {fde : Fde} :
    fdeAt target frameSection bases address = .ok (some fde) ↔
      parseFde target address frameSection bases = .ok fde := by
  constructor
  · intro h
    obtain ⟨header, -, h⟩ := bind_eq_ok_iff.mp h
    split at h
    · cases h
    · obtain ⟨other, hparse, hsome⟩ := bind_eq_ok_iff.mp h
      cases hsome
      exact hparse
  · intro h
    obtain ⟨header, hheader, hbody⟩ := bind_eq_ok_iff.mp h
    split at hbody
    · cases hbody
    · rw [fdeAt, hheader, ok_bind, if_neg ‹_›, h]
      rfl

theorem fdeAt_ofEntry (hmemory : target.FailsUnreadable) {e : UnwindError}
    (h : fdeAt target frameSection bases address = .error e) : e.OfEntry := by
  rcases bind_eq_error_iff.mp h with hheader | ⟨header, -, h⟩
  · exact entryHeader_ofEntry hmemory hheader
  · split at h
    · cases h
    · rcases bind_eq_error_iff.mp h with hparse | ⟨fde, -, hpure⟩
      · exact parseFde_ofEntry hmemory hparse
      · cases hpure

/-! ## What decides -/

/-- What a search for `ip` answers at an entry, if it does not go on behind
it. -/
def answerAt (target : Target) (frameSection : FrameSection) (bases : PointerBases)
    (ip address : UInt64) : Option (Except UnwindError Fde) :=
  match fdeAt target frameSection bases address with
  | .ok (some fde) => if fde.contains ip then some (.ok fde) else none
  | .ok none => none
  | .error e => some (.error e)

theorem answerAt_eq_none_iff :
    answerAt target frameSection bases ip address = none ↔
      Passes target frameSection bases ip address := by
  unfold answerAt Passes
  cases fdeAt target frameSection bases address with
  | error e => simp
  | ok found => cases found <;> simp

theorem answerAt_eq_ok_iff {fde : Fde} :
    answerAt target frameSection bases ip address = some (.ok fde) ↔
      parseFde target address frameSection bases = .ok fde ∧ fde.contains ip = true := by
  rw [← fdeAt_eq_some_iff]
  unfold answerAt
  cases fdeAt target frameSection bases address with
  | error e => simp
  | ok found =>
      cases found with
      | none => simp
      | some other =>
          by_cases hcontains : other.contains ip = true
          · simp only [hcontains, if_true, Option.some.injEq, Except.ok.injEq]
            exact ⟨fun h => ⟨h, h ▸ hcontains⟩, And.left⟩
          · simp only [hcontains, Bool.false_eq_true, if_false, Option.some.injEq,
              Except.ok.injEq]
            exact ⟨nofun, fun h => absurd (h.1 ▸ h.2) hcontains⟩

theorem answerAt_eq_error_iff {e : UnwindError} :
    answerAt target frameSection bases ip address = some (.error e) ↔
      fdeAt target frameSection bases address = .error e := by
  unfold answerAt
  cases fdeAt target frameSection bases address with
  | error e => simp
  | ok found =>
      cases found with
      | none => simp
      | some fde => by_cases hcontains : fde.contains ip = true <;> simp [hcontains]

/-- At an entry the search gives the answer there or goes on where it ends. -/
theorem searchSection_at {header : EntryHeader} (hinside : address < stop)
    (hheader : entryHeader target address = .ok header) :
    searchSection target frameSection bases stop ip address =
      (answerAt target frameSection bases ip address).getD
        (searchSection target frameSection bases stop ip header.stop) := by
  rw [searchSection_eq, if_pos hinside, hheader]
  unfold answerAt fdeAt
  rw [hheader, ok_bind]
  by_cases hkind : header.isCie frameSection = true
  · simp [hkind]
  · simp only [hkind, Bool.false_eq_true, if_false]
    cases parseFde target address frameSection bases with
    | error e => rfl
    | ok fde => by_cases hcontains : fde.contains ip = true <;> simp [hcontains]

theorem searchSection_eq_findSome? (target : Target) (frameSection : FrameSection)
    (bases : PointerBases) (stop ip address : UInt64) :
    searchSection target frameSection bases stop ip address =
      ((chainFrom target stop address).findSome?
        (answerAt target frameSection bases ip)).getD (.error (.noInfo ip)) := by
  fun_induction chainFrom target stop address with
  | case1 address hinside header hheader ih =>
      rw [searchSection_at hinside hheader, ih, List.findSome?_cons]
      cases answerAt target frameSection bases ip address <;> rfl
  | case2 address hinside defect hheader =>
      rw [searchSection_eq, if_pos hinside, hheader]
      rfl
  | case3 address hinside e hother hheader =>
      have hanswer : answerAt target frameSection bases ip address = some (.error e) := by
        rw [answerAt_eq_error_iff, fdeAt, hheader, error_bind]
      rw [searchSection_eq, if_pos hinside, hheader, List.findSome?_singleton, hanswer]
      cases e with
      | invalidArgument defect => exact absurd rfl (hother defect)
      | _ => rfl
  | case4 address houtside =>
      rw [searchSection_eq, if_neg houtside]
      rfl

/-! ## What a search visits -/

/-- A search with the addresses that it comes to, in order. -/
def searchTrace (target : Target) (frameSection : FrameSection) (bases : PointerBases)
    (stop ip address : UInt64) : List UInt64 × Except UnwindError Fde :=
  if address < stop then
    match _hheader : entryHeader target address with
    | .ok header =>
        match answerAt target frameSection bases ip address with
        | some answer => ([address], answer)
        | none =>
            let (visited, answer) := searchTrace target frameSection bases stop ip header.stop
            (address :: visited, answer)
    | .error (.invalidArgument _) => ([address], .error (.noInfo ip))
    | .error e => ([address], .error e)
  else
    ([], .error (.noInfo ip))
termination_by UInt64.size - address.toNat
decreasing_by
  have := entryHeader_advances _hheader
  have := header.stop.toNat_lt_size
  omega

theorem snd_searchTrace (target : Target) (frameSection : FrameSection) (bases : PointerBases)
    (stop ip address : UInt64) :
    (searchTrace target frameSection bases stop ip address).2 =
      searchSection target frameSection bases stop ip address := by
  fun_induction searchTrace target frameSection bases stop ip address with
  | case1 address hinside header hheader answer hanswer =>
      rw [searchSection_at hinside hheader, hanswer]
      rfl
  | case2 address hinside header hheader hpasses visited answer htrace ih =>
      rw [searchSection_at hinside hheader, hpasses, ← ih, htrace]
      rfl
  | case3 address hinside defect hheader =>
      rw [searchSection_eq, if_pos hinside, hheader]
  | case4 address hinside e hother hheader =>
      rw [searchSection_eq, if_pos hinside, hheader]
      cases e with
      | invalidArgument defect => exact absurd rfl (hother defect)
      | _ => rfl
  | case5 address houtside =>
      rw [searchSection_eq, if_neg houtside]

/-- A search goes forward only and looks at nothing outside its range. -/
theorem fst_searchTrace_increases (target : Target) (frameSection : FrameSection)
    (bases : PointerBases) (stop ip address : UInt64) :
    (∀ addr ∈ (searchTrace target frameSection bases stop ip address).1,
      address ≤ addr ∧ addr < stop) ∧
    (searchTrace target frameSection bases stop ip address).1.Pairwise (· < ·) := by
  fun_induction searchTrace target frameSection bases stop ip address with
  | case2 address hinside header hheader hpasses visited answer htrace ih =>
      rw [htrace] at ih
      have hahead : address < header.stop :=
        UInt64.lt_iff_toNat_lt.mpr (entryHeader_advances hheader)
      have hlater : ∀ addr ∈ visited, address < addr := fun addr hmem =>
        UInt64.lt_of_lt_of_le hahead (ih.1 addr hmem).1
      refine ⟨?_, List.pairwise_cons.mpr ⟨hlater, ih.2⟩⟩
      intro addr hmem
      rcases List.mem_cons.mp hmem with rfl | hmem
      · exact ⟨UInt64.le_refl _, hinside⟩
      · exact ⟨UInt64.le_of_lt (hlater addr hmem), (ih.1 addr hmem).2⟩
  | case5 address houtside => simp
  | _ address hinside =>
      refine ⟨?_, List.pairwise_singleton _ _⟩
      intro addr hmem
      obtain rfl := List.mem_singleton.mp hmem
      exact ⟨UInt64.le_refl _, hinside⟩

/-- What a search leaves behind are the entries of the chain, none left out. -/
theorem fst_searchTrace_follows (target : Target) (frameSection : FrameSection)
    (bases : PointerBases) (stop ip address : UInt64) :
    (searchTrace target frameSection bases stop ip address).1.dropLast <+:
      chainFrom target stop address := by
  fun_induction searchTrace target frameSection bases stop ip address with
  | case2 address hinside header hheader hpasses visited answer htrace ih =>
      rw [htrace] at ih
      rw [chainFrom_eq, if_pos hinside, hheader]
      cases visited with
      | nil => exact List.nil_prefix
      | cons next rest =>
          rw [List.dropLast_cons_of_ne_nil (List.cons_ne_nil _ _)]
          exact (List.prefix_cons_inj address).mpr ih
  | _ => exact List.nil_prefix

/-! ## The search as the chain has it -/

/-- The first entry that does not pass gives the answer. -/
theorem searchSection_eq_iff {answer : Except UnwindError Fde}
    (hanswer : answer ≠ .error (.noInfo ip)) :
    searchSection target frameSection bases stop ip address = answer ↔
      ∃ before addr after, chainFrom target stop address = before ++ addr :: after ∧
        answerAt target frameSection bases ip addr = some answer ∧
        ∀ earlier ∈ before, Passes target frameSection bases ip earlier := by
  simp only [← answerAt_eq_none_iff]
  rw [searchSection_eq_findSome?, ← List.findSome?_eq_some_iff]
  cases (chainFrom target stop address).findSome? (answerAt target frameSection bases ip) with
  | none => simpa using hanswer.symm
  | some found => simp

theorem searchSection_eq_noInfo_iff (hmemory : target.FailsUnreadable) :
    searchSection target frameSection bases stop ip address = .error (.noInfo ip) ↔
      ∀ addr ∈ chainFrom target stop address, Passes target frameSection bases ip addr := by
  simp only [← answerAt_eq_none_iff]
  rw [searchSection_eq_findSome?, ← List.findSome?_eq_none_iff]
  cases hfound : (chainFrom target stop address).findSome?
      (answerAt target frameSection bases ip) with
  | none => simp
  | some answer =>
      obtain ⟨addr, -, hanswer⟩ := List.exists_of_findSome?_eq_some hfound
      simp only [Option.getD_some, reduceCtorEq, iff_false]
      rintro rfl
      exact (fdeAt_ofEntry hmemory (answerAt_eq_error_iff.mp hanswer)).ne_noInfo ip rfl

/-- A search walks forward through its range, along the chain.  It finds an FDE
if one holds the address and everything in front of it can be read and does not,
it answers that nothing covers the address exactly if the whole chain can be
read and does not, and any other answer is the error of the first entry that
cannot be read. -/
theorem searchSection_first (hmemory : target.FailsUnreadable) (frameSection : FrameSection)
    (bases : PointerBases) (stop ip address : UInt64) :
    (∃ visited, searchTrace target frameSection bases stop ip address =
        (visited, searchSection target frameSection bases stop ip address) ∧
      visited.Pairwise (· < ·) ∧ (∀ addr ∈ visited, address ≤ addr ∧ addr < stop) ∧
      visited.dropLast <+: chainFrom target stop address) ∧
    (∀ fde, searchSection target frameSection bases stop ip address = .ok fde ↔
      ∃ before addr after, chainFrom target stop address = before ++ addr :: after ∧
        (parseFde target addr frameSection bases = .ok fde ∧ fde.contains ip = true) ∧
        ∀ earlier ∈ before, Passes target frameSection bases ip earlier) ∧
    (searchSection target frameSection bases stop ip address = .error (.noInfo ip) ↔
      ∀ addr ∈ chainFrom target stop address, Passes target frameSection bases ip addr) ∧
    (∀ e, e ≠ .noInfo ip →
      (searchSection target frameSection bases stop ip address = .error e ↔
        ∃ before addr after, chainFrom target stop address = before ++ addr :: after ∧
          fdeAt target frameSection bases addr = .error e ∧
          ∀ earlier ∈ before, Passes target frameSection bases ip earlier)) := by
  obtain ⟨hinside, hincreases⟩ :=
    fst_searchTrace_increases target frameSection bases stop ip address
  refine ⟨⟨_, Prod.ext rfl (snd_searchTrace ..), hincreases, hinside,
    fst_searchTrace_follows ..⟩, ?_⟩
  refine ⟨fun fde => ?_, searchSection_eq_noInfo_iff hmemory, fun e he => ?_⟩
  · rw [searchSection_eq_iff (by simp)]
    simp only [answerAt_eq_ok_iff]
  · rw [searchSection_eq_iff (by simpa using he)]
    simp only [answerAt_eq_error_iff]

theorem twoFunctionsTarget_failsUnreadable (encodings : UInt64) :
    (twoFunctionsTarget encodings).FailsUnreadable := by
  intro addr e h
  unfold twoFunctionsTarget imageTarget at h
  dsimp only at h
  split at h <;> cases h
  exact ⟨addr, rfl⟩

/-- The earlier function comes later in the chain, behind the CIE and the other
FDE. -/
theorem searchSection_first_twoFunctions :
    (twoFunctionsTarget 0xffff1b01).FailsUnreadable ∧
      searchSection (twoFunctionsTarget 0xffff1b01) .ehFrame { data := 0x1000 } maxWord 0x300f
        0x101c = .ok earlierFunction := by
  have hmemory := twoFunctionsTarget_failsUnreadable 0xffff1b01
  have hchain : chainFrom (twoFunctionsTarget 0xffff1b01) maxWord 0x101c =
      [0x101c, 0x102c] ++ 0x103c :: [] := by cbv
  refine ⟨hmemory, ((searchSection_first hmemory .ehFrame { data := 0x1000 } maxWord 0x300f
    0x101c).2.1 earlierFunction).mpr ⟨_, _, _, hchain, ⟨by cbv, by decide⟩, ?_⟩⟩
  intro earlier hmem
  rcases List.mem_cons.mp hmem with rfl | hmem
  · refine ⟨none, by cbv, ?_⟩
    rintro fde ⟨⟩
  · obtain rfl := List.mem_singleton.mp hmem
    refine ⟨some laterFunction, by cbv, ?_⟩
    rintro fde ⟨⟩
    decide

end StackWalk.Cfi
