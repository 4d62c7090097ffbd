import Mathlib.Tactic
import StackWalk.Cfi.FrameChain
import StackWalk.Proofs.Action
import StackWalk.Proofs.Word

/-!
# Walking a chain of entries

A chain runs over entries of both kinds up to one of no length.  Searching it
answers with the first FDE along the chain that holds the address, so the
chain is a list of FDEs as far as searching goes.
-/

namespace StackWalk.Cfi

/-! ## What a parsed FDE is -/

theorem readFdeBody_ensures (target : Target) (bases : PointerBases) (address : UInt64)
    (cie : Cie) (stop pos : UInt64) :
    Action.Ensures (readFdeBody target bases address cie stop) pos fun fde _ =>
      fde.address = address ∧ fde.start < fde.stop := by
  have hany {α : Type} (action : Scan α) (pos : UInt64) :
      Action.Ensures action pos fun _ _ => True := fun _ _ _ => trivial
  refine .bind (hany _ _) fun start _ _ => .bind (hany _ _) fun length _ _ => ?_
  refine .bind (hany _ _) fun lsda _ _ => .bind (hany _ _) fun here _ _ => ?_
  refine .bind (hany _ _) fun program _ _ => .ite (fun hlt => ?_) fun _ => .throw
  exact .pure ⟨rfl, hlt⟩

theorem parseFde_eq_ok {target : Target} {address : UInt64} {frameSection : FrameSection}
    {bases : PointerBases} {fde : Fde}
    (h : parseFde target address frameSection bases = .ok fde) :
    fde.address = address ∧ fde.start < fde.stop := by
  unfold parseFde at h
  obtain ⟨header, _, h⟩ := bind_eq_ok_iff.mp h
  by_cases hcie : header.isCie frameSection = true
  · rw [if_pos hcie] at h
    cases h
  · rw [if_neg hcie] at h
    obtain ⟨cie, _, hbody⟩ := bind_eq_ok_iff.mp h
    obtain ⟨after, hrun⟩ := Action.answer_eq_ok hbody
    exact readFdeBody_ensures target bases address cie header.stop header.body fde after hrun

/-! ## Chains -/

/-- From `address` on there is a chain whose FDEs are `fdes`, up to an entry of
no length. -/
inductive Chain (target : Target) (bases : PointerBases) : UInt64 → List Fde → Prop where
  | stop {address : UInt64}
      (hempty : entryHeader target address = .error (.invalidArgument .emptyEntry)) :
      Chain target bases address []
  | cie {address : UInt64} {header : EntryHeader} {fdes : List Fde}
      (hheader : entryHeader target address = .ok header)
      (hkind : header.isCie .ehFrame = true)
      (hrest : Chain target bases header.stop fdes) :
      Chain target bases address fdes
  | fde {address : UInt64} {header : EntryHeader} {fde : Fde} {fdes : List Fde}
      (hheader : entryHeader target address = .ok header)
      (hkind : header.isCie .ehFrame = false)
      (hparse : parseFde target address .ehFrame bases = .ok fde)
      (hrest : Chain target bases header.stop fdes) :
      Chain target bases address (fde :: fdes)

theorem Chain.parse {target : Target} {bases : PointerBases} {address : UInt64}
    {fdes : List Fde} (h : Chain target bases address fdes) {fde : Fde} (hmem : fde ∈ fdes) :
    parseFde target fde.address .ehFrame bases = .ok fde := by
  induction h with
  | stop hempty => cases hmem
  | cie hheader hkind hrest ih => exact ih hmem
  | @fde address header first fdes hheader hkind hparse hrest ih =>
      rcases List.mem_cons.mp hmem with rfl | hmem
      · rwa [(parseFde_eq_ok hparse).1]
      · exact ih hmem

/-- No header begins at the last address. -/
theorem entryHeader_of_maxWord_le {target : Target} {address : UInt64}
    (h : ¬address < maxWord) : entryHeader target address = .error (.unreadable address) := by
  have hnat : ¬address.toNat < 2 ^ 64 - 1 := by
    rwa [UInt64.lt_iff_toNat_lt] at h
  have hadvance : advance address (UInt64.ofNat 4) = .error (.unreadable address) := by
    have hfour : (UInt64.ofNat 4).toNat = 4 := rfl
    have hover : ¬address.toNat + (UInt64.ofNat 4).toNat < 2 ^ 64 := by omega
    simp only [advance, checkedAdd_of_not_lt hover]
  have hread : target.readUInt 4 address = .error (.unreadable address) address := by
    unfold Target.readUInt
    rw [Action.get_bind_apply, hadvance, Action.lift_error_bind_apply]
  have hlength : readEntryLength target address = .error (.unreadable address) address := by
    unfold readEntryLength
    rw [Action.bind_eq_of_error hread]
  unfold entryHeader Action.answer Action.perform readEntryHeader
  rw [Action.bind_eq_of_error hlength]

theorem searchSection_eq (target : Target) (frameSection : FrameSection) (bases : PointerBases)
    (stop ip address : UInt64) :
    searchSection target frameSection bases stop ip address =
      if address < stop then
        match entryHeader target address with
        | .ok header =>
            if header.isCie frameSection then
              searchSection target frameSection bases stop ip header.stop
            else
              match parseFde target address frameSection bases with
              | .ok fde =>
                  if fde.contains ip then
                    .ok fde
                  else
                    searchSection target frameSection bases stop ip header.stop
              | .error e => .error e
        | .error (.invalidArgument _) => .error (.noInfo ip)
        | .error e => .error e
      else
        .error (.noInfo ip) := by
  rw [searchSection]
  split
  · cases hheader : entryHeader target address with
    | ok header => rfl
    | error e => cases e <;> rfl
  · rfl

/-- The FDE of a list that holds an address. -/
def covering (fdes : List Fde) (ip : UInt64) : Except UnwindError Fde :=
  match fdes.find? (·.contains ip) with
  | some fde => .ok fde
  | none => .error (.noInfo ip)

theorem searchSection_eq_covering {target : Target} {bases : PointerBases} {address : UInt64}
    {fdes : List Fde} (h : Chain target bases address fdes) (ip : UInt64) :
    searchSection target .ehFrame bases maxWord ip address = covering fdes ip := by
  have hbefore {address : UInt64}
      (hheader : entryHeader target address ≠ .error (.unreadable address)) :
      address < maxWord := by
    by_contra hlast
    exact hheader (entryHeader_of_maxWord_le hlast)
  induction h with
  | stop hempty =>
      rw [searchSection_eq, if_pos (hbefore (by rw [hempty]; simp)), hempty]
      rfl
  | cie hheader hkind hrest ih =>
      rw [searchSection_eq, if_pos (hbefore (by rw [hheader]; simp)), hheader]
      simpa [hkind] using ih
  | @fde address header fde fdes hheader hkind hparse hrest ih =>
      rw [searchSection_eq, if_pos (hbefore (by rw [hheader]; simp)), hheader]
      by_cases hcontains : fde.contains ip = true
      · simp [hkind, hparse, hcontains, covering]
      · simp only [Bool.not_eq_true] at hcontains
        simpa [hkind, hparse, hcontains, covering] using ih

/-! ## At most one FDE holds an address -/

theorem Fde.contains_iff {fde : Fde} {ip : UInt64} :
    fde.contains ip = true ↔ fde.start ≤ ip ∧ ip < fde.stop := by
  simp [Fde.contains]

theorem Fde.not_contains_of_lt {fde : Fde} {ip : UInt64} (h : ip < fde.start) :
    ¬fde.contains ip = true := by
  rw [Fde.contains_iff]
  intro hrange
  exact absurd h (UInt64.not_lt.mpr hrange.1)

/-- No address is held by both. -/
def Fde.Disjoint (first second : Fde) : Prop :=
  ∀ ip, ¬(first.contains ip = true ∧ second.contains ip = true)

instance : Std.Symm Fde.Disjoint where
  symm _ _ h ip hboth := h ip hboth.symm

theorem covering_of_mem {fdes : List Fde} (hdisjoint : fdes.Pairwise Fde.Disjoint) {fde : Fde}
    (hmem : fde ∈ fdes) {ip : UInt64} (hcontains : fde.contains ip = true) :
    covering fdes ip = .ok fde := by
  unfold covering
  cases hfind : fdes.find? (·.contains ip) with
  | none => exact absurd hcontains (List.find?_eq_none.mp hfind fde hmem)
  | some found =>
      have hfound : found ∈ fdes := List.mem_of_find?_eq_some hfind
      have hholds : found.contains ip = true := by
        simpa using List.find?_some hfind
      by_contra hother
      have hne : fde ≠ found := fun heq => hother (by rw [heq])
      exact hdisjoint.forall hmem hfound hne ip ⟨hcontains, hholds⟩

theorem covering_of_forall_not {fdes : List Fde} {ip : UInt64}
    (hnone : ∀ fde ∈ fdes, ¬fde.contains ip = true) :
    covering fdes ip = .error (.noInfo ip) := by
  have hfind : fdes.find? (·.contains ip) = none := List.find?_eq_none.mpr hnone
  simp only [covering, hfind]

theorem pairwise_disjoint_of_perm {first second : List Fde} (hperm : first.Perm second)
    (hdisjoint : second.Pairwise Fde.Disjoint) : first.Pairwise Fde.Disjoint :=
  (hperm.pairwise_iff fun h => Std.Symm.symm _ _ h).mpr hdisjoint

theorem covering_perm {first second : List Fde} (hperm : first.Perm second)
    (hdisjoint : second.Pairwise Fde.Disjoint) (ip : UInt64) :
    covering first ip = covering second ip := by
  by_cases hholds : ∃ fde ∈ first, fde.contains ip = true
  · obtain ⟨fde, hmem, hcontains⟩ := hholds
    rw [covering_of_mem (pairwise_disjoint_of_perm hperm hdisjoint) hmem hcontains,
      covering_of_mem hdisjoint (hperm.mem_iff.mp hmem) hcontains]
  · have hnone : ∀ fde ∈ first, ¬fde.contains ip = true :=
      fun fde hmem hcontains => hholds ⟨fde, hmem, hcontains⟩
    rw [covering_of_forall_not hnone,
      covering_of_forall_not fun fde hmem => hnone fde (hperm.mem_iff.mpr hmem)]

end StackWalk.Cfi
