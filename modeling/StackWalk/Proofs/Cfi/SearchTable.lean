import Mathlib.Tactic
import StackWalk.Cfi.SearchTable
import StackWalk.Proofs.Cfi.FrameChain

/-!
# Searching the table and walking the chain

A header may have a table of the FDEs of its chain.  Halving the table finds
the last procedure that begins at or before an address; when ranges do not
overlap no other can hold it.  So the table answers as the chain does.
-/

namespace StackWalk

/-! ## Stored pointers of a fixed size -/

namespace Target

theorem readStored_ensures {target : Target} {encoding : PointerEncoding} {format : ValueFormat}
    {half : Nat} (hformat : encoding.format = .ok format)
    (hsize : encoding.size target.arch.addressSize = .ok (some half)) (pos : UInt64) :
    Action.Ensures (target.readStored format) pos fun _ next =>
      next.toNat = pos.toNat + (UInt64.ofNat half).toNat := by
  have hread (size : Nat) := target.readUInt_ensures size pos
  have hmap (size : Nat) (f : UInt64 → UInt64) :
      Action.Ensures (f <$> target.readUInt size) pos fun _ next =>
        next.toNat = pos.toNat + (UInt64.ofNat size).toNat := by
    rw [map_eq_pure_bind]
    exact .bind (hread size) fun _ _ h => .pure h
  unfold PointerEncoding.size at hsize
  rw [hformat, ok_bind] at hsize
  cases format <;> simp at hsize <;> subst hsize
  · exact hread _
  · exact hread 2
  · exact hread 4
  · exact hread 8
  · exact hmap 2 _
  · exact hmap 4 _
  · exact hread 8

theorem readPointer_ensures {target : Target} {encoding : PointerEncoding} {half : Nat}
    (hsize : encoding.size target.arch.addressSize = .ok (some half)) (bases : PointerBases)
    (pos : UInt64) :
    Action.Ensures (target.readPointer encoding bases) pos fun _ next =>
      pos.toNat + (UInt64.ofNat half).toNat ≤ next.toNat := by
  unfold readPointer
  split
  · rename_i homitted
    obtain rfl : encoding = .omitted := by simpa [PointerEncoding.isOmitted] using homitted
    cases hsize
  · split
    · rename_i haligned
      subst haligned
      have hformat : PointerEncoding.alignedWord.format = .ok .absptr := rfl
      rw [PointerEncoding.size, hformat, ok_bind] at hsize
      obtain rfl : target.arch.addressSize = half := by simpa using hsize
      exact target.readAlignedWord_ensures pos
    · refine .bind .get ?_
      rintro _ _ ⟨rfl, rfl⟩
      refine .bind .ofExcept ?_
      rintro format _ ⟨hformat, rfl⟩
      refine .bind (readStored_ensures hformat hsize _) fun value next hnext => ?_
      refine Action.Ensures.ofExcept.mono ?_
      rintro pointer _ ⟨-, rfl⟩
      omega

end Target

namespace Cfi

/-! ## The table -/

namespace SearchTable

/-- The pairs of the table end before the end of the address space. -/
def Fits (table : SearchTable) : Prop :=
  table.start.toNat + table.count.toNat * (table.halfSize.toNat * 2) < 2 ^ 64

instance (table : SearchTable) : Decidable table.Fits :=
  inferInstanceAs (Decidable (_ < _))

theorem toNat_pairSize (table : SearchTable) (hpair : table.halfSize.toNat * 2 < 2 ^ 64) :
    (table.halfSize * 2).toNat = table.halfSize.toNat * 2 := by
  rw [UInt64.toNat_mul]
  exact Nat.mod_eq_of_lt hpair

theorem toNat_entryAddress (table : SearchTable) (hpair : table.halfSize.toNat * 2 < 2 ^ 64)
    (index : UInt64)
    (hlt : table.start.toNat + index.toNat * (table.halfSize.toNat * 2) < 2 ^ 64) :
    (table.entryAddress index).toNat =
      table.start.toNat + index.toNat * (table.halfSize.toNat * 2) := by
  unfold entryAddress
  rw [UInt64.toNat_add, UInt64.toNat_mul, table.toNat_pairSize hpair,
    Nat.mod_eq_of_lt (show index.toNat * (table.halfSize.toNat * 2) < _ by omega),
    Nat.mod_eq_of_lt hlt]

/-- The pairs of the table are those of the FDEs listed, in the order of their
first addresses, and none lies past the last address. -/
structure Lists (target : Target) (table : SearchTable) (listed : List Fde) : Prop where
  count : table.count.toNat = listed.length
  fits : table.start.toNat + table.count.toNat * (table.halfSize.toNat * 2) ≤ 2 ^ 64
  initialLocation : ∀ i (h : i < listed.length),
    table.initialLocation target (UInt64.ofNat i) = .ok listed[i].start
  fdeAddress : ∀ i (h : i < listed.length),
    table.fdeAddress target (UInt64.ofNat i) = .ok listed[i].address
  increasing : listed.Pairwise (·.start < ·.start)

/-- The first addresses of the pairs are those of the items, and none is below
the one before it. -/
structure Ascends {Item : Type} (target : Target) (table : SearchTable) (first : Item → UInt64)
    (items : List Item) : Prop where
  initialLocation : ∀ i (h : i < items.length),
    table.initialLocation target (UInt64.ofNat i) = .ok (first items[i])
  nondecreasing : items.Pairwise (first · ≤ first ·)

/-- The first items begin at or before the address, the others behind it. -/
structure Splits {Item : Type} (first : Item → UInt64) (items : List Item) (ip : UInt64)
    (above : Nat) : Prop where
  le_length : above ≤ items.length
  below : ∀ i (h : i < items.length), i < above → first items[i] ≤ ip
  behind : ∀ i (h : i < items.length), above ≤ i → ip < first items[i]

section

variable {Item : Type} {target : Target} {table : SearchTable} {first : Item → UInt64}
  {items : List Item}

theorem Ascends.first_le (h : table.Ascends target first items) {i j : Nat} (hij : i ≤ j)
    (hj : j < items.length) : first items[i] ≤ first items[j] := by
  rcases Nat.lt_or_eq_of_le hij with hlt | rfl
  · exact List.pairwise_iff_getElem.mp h.nondecreasing i j (by omega) hj hlt
  · exact UInt64.le_refl _

/-- Halving keeps what is before the part searched at or below the address, and
what is after it behind. -/
theorem search_splits (h : table.Ascends target first items) (ip : UInt64) (base length : Nat)
    (hwithin : base + length ≤ items.length)
    (hbelow : ∀ i (h : i < items.length), i < base → first items[i] ≤ ip)
    (hbehind : ∀ i (h : i < items.length), base + length ≤ i → ip < first items[i]) :
    ∃ above, table.search target ip base length = .ok above ∧ Splits first items ip above := by
  fun_induction table.search target ip base length with
  | case1 base => exact ⟨base, rfl, by omega, hbelow, hbehind⟩
  | case2 base length hlength half e hread =>
      have hmid : base + half < items.length := by omega
      rw [h.initialLocation _ hmid] at hread
      cases hread
  | case3 base length hlength half location hread hle ih =>
      have hmid : base + half < items.length := by omega
      rw [h.initialLocation _ hmid] at hread
      obtain rfl := Except.ok.inj hread
      refine ih (by omega) ?_ ?_
      · intro i hi hlt
        exact UInt64.le_trans (h.first_le (Nat.le_of_lt_succ hlt) hmid) hle
      · intro i hi hge
        exact hbehind i hi (by omega)
  | case4 base length hlength half location hread hgt ih =>
      have hmid : base + half < items.length := by omega
      rw [h.initialLocation _ hmid] at hread
      obtain rfl := Except.ok.inj hread
      refine ih (by omega) hbelow ?_
      intro i hi hge
      exact UInt64.lt_of_lt_of_le (UInt64.not_le.mp hgt) (h.first_le hge hi)

/-- Searching all of the table splits it at the address. -/
theorem Ascends.search_all (h : table.Ascends target first items)
    (hcount : table.count.toNat = items.length) (ip : UInt64) :
    ∃ above, table.search target ip 0 table.count.toNat = .ok above ∧
      Splits first items ip above :=
  search_splits h ip 0 _ (by omega) (by omega) (by omega)

end

variable {target : Target} {table : SearchTable} {listed : List Fde}

theorem Lists.start_lt (hlists : table.Lists target listed) {i j : Nat} (hij : i < j)
    (hj : j < listed.length) : listed[i].start < listed[j].start :=
  List.pairwise_iff_getElem.mp hlists.increasing i j (by omega) hj hij

theorem Lists.ascends (hlists : table.Lists target listed) :
    table.Ascends target Fde.start listed where
  initialLocation := hlists.initialLocation
  nondecreasing := hlists.increasing.imp UInt64.le_of_lt

/-- An earlier procedure that held the address would hold the first address of
the last one too. -/
theorem Splits.not_contains (hlists : table.Lists target listed)
    (hrange : ∀ fde ∈ listed, fde.start < fde.stop) (hdisjoint : listed.Pairwise Fde.Disjoint)
    {ip : UInt64} {last : Nat} (hsplits : Splits Fde.start listed ip (last + 1))
    (hlast : last < listed.length) (hnot : ¬listed[last].contains ip = true) :
    ∀ fde ∈ listed, ¬fde.contains ip = true := by
  intro fde hmem hholds
  obtain ⟨i, hi, rfl⟩ := List.getElem_of_mem hmem
  rcases Nat.lt_trichotomy i last with hbefore | rfl | hafter
  · have hstart := hlists.start_lt hbefore hlast
    have hle := hsplits.below last hlast (Nat.lt_succ_self last)
    have hstop := (Fde.contains_iff.mp hholds).2
    have hfirst : listed[i].contains listed[last].start = true :=
      Fde.contains_iff.mpr ⟨UInt64.le_of_lt hstart, UInt64.lt_of_le_of_lt hle hstop⟩
    have hsecond : listed[last].contains listed[last].start = true :=
      Fde.contains_iff.mpr ⟨UInt64.le_refl _, hrange _ (List.getElem_mem hlast)⟩
    exact List.pairwise_iff_getElem.mp hdisjoint i last hi hlast hbefore _ ⟨hfirst, hsecond⟩
  · exact hnot hholds
  · exact Fde.not_contains_of_lt (hsplits.behind i hi hafter) hholds

theorem findFde_eq_covering (hlists : table.Lists target listed)
    (hparse : ∀ fde ∈ listed, parseFde target fde.address .ehFrame table.bases = .ok fde)
    (hdisjoint : listed.Pairwise Fde.Disjoint) (ip : UInt64) :
    table.findFde target ip = covering listed ip := by
  obtain ⟨above, hsearch, hsplits⟩ := hlists.ascends.search_all hlists.count ip
  unfold findFde
  rw [hsearch, ok_bind]
  cases above with
  | zero =>
      have hnone : ∀ fde ∈ listed, ¬fde.contains ip = true := by
        intro fde hmem
        obtain ⟨i, hi, rfl⟩ := List.getElem_of_mem hmem
        exact Fde.not_contains_of_lt (hsplits.behind i hi (Nat.zero_le i))
      rw [covering_of_forall_not hnone]
      rfl
  | succ last =>
      have hlast : last < listed.length := hsplits.le_length
      have hmem : listed[last] ∈ listed := List.getElem_mem hlast
      rw [if_neg (Nat.succ_ne_zero last), Nat.add_sub_cancel, hlists.fdeAddress last hlast,
        ok_bind, hparse _ hmem, ok_bind]
      by_cases hcontains : listed[last].contains ip = true
      · rw [if_pos hcontains, covering_of_mem hdisjoint hmem hcontains]
        rfl
      · have hrange : ∀ fde ∈ listed, fde.start < fde.stop :=
          fun fde hfde => (parseFde_eq_ok (hparse fde hfde)).2
        have hnone := hsplits.not_contains hlists hrange hdisjoint hlast hcontains
        rw [if_neg hcontains, covering_of_forall_not hnone]
        rfl

/-- The table leads to the FDE that holds the address, whatever the others
are, if none of them begins inside it. -/
theorem findFde_of_holds (hlists : table.Lists target listed) {fde : Fde} (hmem : fde ∈ listed)
    (hparse : parseFde target fde.address .ehFrame table.bases = .ok fde)
    (hapart : ∀ other ∈ listed, fde.contains other.start = true → other = fde) {ip : UInt64}
    (hholds : fde.contains ip = true) : table.findFde target ip = .ok fde := by
  obtain ⟨above, hsearch, hsplits⟩ := hlists.ascends.search_all hlists.count ip
  obtain ⟨i, hi, rfl⟩ := List.getElem_of_mem hmem
  obtain ⟨hfirst, hlast⟩ := Fde.contains_iff.mp hholds
  have hbelow : i < above := by
    by_contra hnot
    exact absurd (hsplits.behind i hi (by omega)) (UInt64.not_lt.mpr hfirst)
  obtain ⟨last, rfl⟩ : ∃ last, above = last + 1 := ⟨above - 1, by omega⟩
  have hlistedLast : last < listed.length := hsplits.le_length
  have hsame : listed[last] = listed[i] := by
    rcases Nat.lt_or_eq_of_le (Nat.le_of_lt_succ hbelow) with hbefore | rfl
    · refine hapart _ (List.getElem_mem hlistedLast) (Fde.contains_iff.mpr ⟨?_, ?_⟩)
      · exact UInt64.le_of_lt (hlists.start_lt hbefore hlistedLast)
      · exact UInt64.lt_of_le_of_lt (hsplits.below last hlistedLast (Nat.lt_succ_self last)) hlast
    · rfl
  unfold findFde
  rw [hsearch, ok_bind, if_neg (Nat.succ_ne_zero last), Nat.add_sub_cancel,
    hlists.fdeAddress last hlistedLast, ok_bind, hsame, hparse, ok_bind, if_pos hholds]
  rfl

end SearchTable

/-! ## Headers -/

/-- The header at `hdr` points to the chain at `chain`; its variable part goes
on at `rest`. -/
structure PointsTo (target : Target) (hdr : UInt64) (header : TableHeader) (rest chain : UInt64) :
    Prop where
  version : header.version = 1
  reads : ∃ field, readTableHeader target hdr = .ok header field ∧
    target.readPointer header.framePointerEncoding { data := hdr } field = .ok chain rest

/-- The same header with the count and the table left out. -/
def TableHeader.withoutTable (header : TableHeader) : TableHeader :=
  { header with countEncoding := .omitted, tableEncoding := .omitted }

/-- At `rest` the header has a count, and behind it a table of pairs whose
halves have a fixed size. -/
structure HasTable (target : Target) (hdr : UInt64) (header : TableHeader) (rest : UInt64)
    (table : SearchTable) : Prop where
  counted : header.countEncoding.isOmitted = false
  count : target.readPointer header.countEncoding { data := hdr } rest = .ok table.count table.start
  size : ∃ half,
    header.tableEncoding.size target.arch.addressSize = .ok (some half) ∧
      table.halfSize = UInt64.ofNat half
  encoding : table.encoding = header.tableEncoding
  bases : table.bases = { data := hdr }

/-- Where a header leads: to a chain of entries, or to a table. -/
inductive LookUpPath where
  | chain (address : UInt64)
  | table (listing : SearchTable)

/-- Where the header at `hdr` leads. -/
def lookUpPath (target : Target) (hdr : UInt64) : Except UnwindError LookUpPath :=
  let bases : PointerBases := { data := hdr }
  let scan : Scan LookUpPath := do
    let header ← readTableHeader target
    if header.version ≠ 1 then
      throw (.badVersion header.version)
    else
      let chain ← target.readPointer header.framePointerEncoding bases
      if header.countEncoding.isOmitted || header.tableEncoding.isOmitted then
        return .chain chain
      else
        let table ← readSearchTable target header bases
        return .table table
  scan.answer hdr

/-- What is found where a header leads. -/
def LookUpPath.findFde (target : Target) (hdr ip : UInt64) :
    LookUpPath → Except UnwindError Fde
  | chain address => searchSection target .ehFrame { data := hdr } maxWord ip address
  | table listing => listing.findFde target ip

variable {target : Target} {hdr rest : UInt64} {header : TableHeader} {table : SearchTable}
  {fdes listed : List Fde}

/-- Looking up an address is finding out where the header leads, and then
looking there. -/
theorem findProcInHeader_eq (target : Target) (hdr ip : UInt64) :
    findProcInHeader target hdr ip =
      lookUpPath target hdr >>= fun path =>
        (path.findFde target hdr ip).map (·.procInfo .ehFrame { data := hdr }) := by
  unfold findProcInHeader lookUpPath Action.answer Action.perform
  simp only [Action.bind_apply]
  cases readTableHeader target hdr with
  | error e next => rfl
  | ok header field =>
      by_cases hversion : header.version ≠ 1
      · simp only [if_pos hversion]
        rfl
      · simp only [if_neg hversion, Action.bind_apply]
        cases target.readPointer header.framePointerEncoding { data := hdr } field with
        | error e next => rfl
        | ok chain rest =>
            by_cases homitted :
                (header.countEncoding.isOmitted || header.tableEncoding.isOmitted) = true
            · simp only [if_pos homitted]
              change _ = (searchSection target .ehFrame { data := hdr } maxWord ip chain).map _
              cases searchSection target .ehFrame { data := hdr } maxWord ip chain <;> rfl
            · simp only [if_neg homitted, Action.bind_apply]
              cases readSearchTable target header { data := hdr } rest with
              | error e next => rfl
              | ok table next =>
                  dsimp only
                  change _ = (table.findFde target ip).map _
                  cases table.findFde target ip <;> rfl

theorem size_le {encoding : PointerEncoding} {addressSize half : Nat}
    (hsmall : addressSize < 256) (h : encoding.size addressSize = .ok (some half)) :
    half < 256 := by
  unfold PointerEncoding.size at h
  obtain ⟨format, -, h⟩ := bind_eq_ok_iff.mp h
  cases format <;> simp at h <;> omega

theorem HasTable.halfSize_lt (htable : HasTable target hdr header rest table)
    (hsmall : target.arch.addressSize < 256) : table.halfSize.toNat < 256 := by
  obtain ⟨half, hsize, hhalf⟩ := htable.size
  have hless := size_le hsmall hsize
  rw [hhalf, UInt64.toNat_ofNat_of_lt' (Nat.lt_trans hless (by decide))]
  exact hless

theorem HasTable.pairSize_lt (htable : HasTable target hdr header rest table)
    (hsmall : target.arch.addressSize < 256) : table.halfSize.toNat * 2 < 2 ^ 64 := by
  have hless := htable.halfSize_lt hsmall
  omega

/-- The second half of the last pair is read before the end of the address
space, so the table ends there too. -/
theorem HasTable.fits (htable : HasTable target hdr header rest table)
    (hsmall : target.arch.addressSize < 256) (hlists : table.Lists target listed) :
    table.Fits := by
  obtain ⟨half, hsize, hhalf⟩ := htable.size
  have hpair := htable.pairSize_lt hsmall
  have hle := hlists.fits
  have hstart := table.start.toNat_lt
  unfold SearchTable.Fits
  rcases Nat.eq_zero_or_pos table.halfSize.toNat with hzero | hhalfpos
  · simpa [hzero] using hstart
  cases hcount : table.count.toNat with
  | zero => simpa using hstart
  | succ last =>
      have hlast : last < listed.length := by
        rw [← hlists.count, hcount]
        exact Nat.lt_succ_self last
      rw [hcount, Nat.succ_mul] at hle
      rw [Nat.succ_mul]
      have hindex : (UInt64.ofNat last).toNat = last := by
        have hcountlt := table.count.toNat_lt
        exact UInt64.toNat_ofNat_of_lt' (show last < 2 ^ 64 by omega)
      have haddr : (table.entryAddress (UInt64.ofNat last) + table.halfSize).toNat =
          table.start.toNat + last * (table.halfSize.toNat * 2) + table.halfSize.toNat := by
        have hentry := table.toNat_entryAddress hpair (UInt64.ofNat last) (by rw [hindex]; omega)
        rw [hindex] at hentry
        rw [UInt64.toNat_add, hentry, Nat.mod_eq_of_lt (by omega)]
      have hread := hlists.fdeAddress last hlast
      obtain ⟨next, hrun⟩ := Action.answer_eq_ok hread
      rw [htable.encoding] at hrun
      have hend := Target.readPointer_ensures hsize _ _ _ _ hrun
      have hnext := next.toNat_lt
      rw [haddr, ← hhalf] at hend
      omega

/-- The table is read if it fits and refused otherwise. -/
theorem HasTable.readSearchTable_eq (htable : HasTable target hdr header rest table)
    (hsmall : target.arch.addressSize < 256) :
    readSearchTable target header { data := hdr } rest =
      if table.Fits then .ok table table.start
      else .error (.invalidArgument .tableTooLong) table.start := by
  obtain ⟨half, hsize, hhalf⟩ := htable.size
  have hend : (checkedMul table.count (table.halfSize * 2)).bind (checkedAdd table.start) =
      if table.Fits then some (table.start + table.count * (table.halfSize * 2)) else none := by
    rw [checkedMul_bind_checkedAdd, table.toNat_pairSize (htable.pairSize_lt hsmall)]
    rfl
  unfold readSearchTable
  rw [Action.bind_eq_of_ok htable.count, hsize, Action.lift_ok_bind_apply]
  simp only [Action.get_bind_apply, ← hhalf, hend]
  by_cases hfits : table.Fits
  · simp only [if_pos hfits, Action.pure_apply, ← htable.encoding, ← htable.bases]
  · simp only [if_neg hfits, Action.throw_apply]

/-- A table that is read is behind its count, and its halves have a fixed size. -/
theorem hasTable_of_readSearchTable {next : UInt64}
    (hcounted : header.countEncoding.isOmitted = false)
    (h : readSearchTable target header { data := hdr } rest = .ok table next) :
    HasTable target hdr header rest table := by
  obtain ⟨count, start, hcount, h⟩ := Action.ok_of_bind h
  obtain ⟨size, hsize, h⟩ := Action.lift_bind_apply_eq_ok_iff.mp h
  cases size with
  | none => cases h
  | some half =>
      simp only [Action.get_bind_apply] at h
      cases hend : (checkedMul count (UInt64.ofNat half * 2)).bind (checkedAdd start) with
      | none =>
          rw [hend] at h
          cases h
      | some stop =>
          rw [hend] at h
          cases h
          exact ⟨hcounted, hcount, ⟨half, hsize, rfl⟩, rfl, rfl⟩

/-! ## Looking up an address -/

theorem HasTable.tableEncoding (htable : HasTable target hdr header rest table) :
    header.tableEncoding.isOmitted = false := by
  obtain ⟨half, hsize, -⟩ := htable.size
  rw [Bool.eq_false_iff]
  intro homitted
  rw [show header.tableEncoding = .omitted by simpa [PointerEncoding.isOmitted] using homitted]
    at hsize
  cases hsize

theorem PointsTo.lookUpPath_chain {chain : UInt64}
    (hpoints : PointsTo target hdr header rest chain)
    (homitted : header.countEncoding.isOmitted || header.tableEncoding.isOmitted) :
    lookUpPath target hdr = .ok (.chain chain) := by
  obtain ⟨field, hheader, hpointer⟩ := hpoints.reads
  unfold lookUpPath Action.answer Action.perform
  simp only [Action.bind_eq_of_ok hheader, hpoints.version, ne_eq, not_true_eq_false, if_false,
    Action.bind_eq_of_ok hpointer, homitted, if_true, Action.pure_apply]

theorem PointsTo.lookUpPath_table {chain : UInt64}
    (hpoints : PointsTo target hdr header rest chain)
    (htable : HasTable target hdr header rest table) (hsmall : target.arch.addressSize < 256) :
    lookUpPath target hdr =
      if table.Fits then .ok (.table table) else .error (.invalidArgument .tableTooLong) := by
  obtain ⟨field, hheader, hpointer⟩ := hpoints.reads
  have hread := htable.readSearchTable_eq hsmall
  unfold lookUpPath Action.answer Action.perform
  simp only [Action.bind_eq_of_ok hheader, hpoints.version, ne_eq, not_true_eq_false, if_false,
    Action.bind_eq_of_ok hpointer, htable.counted, htable.tableEncoding, Bool.or_self,
    Bool.false_eq_true]
  by_cases hfits : table.Fits
  · rw [if_pos hfits] at hread ⊢
    rw [Action.bind_eq_of_ok hread]
    rfl
  · rw [if_neg hfits] at hread ⊢
    rw [Action.bind_eq_of_error hread]

/-- A header leads to no other tables than the one it has. -/
theorem lookUpPath_eq_table (h : lookUpPath target hdr = .ok (.table table)) :
    ∃ header rest chain, PointsTo target hdr header rest chain ∧
      HasTable target hdr header rest table := by
  obtain ⟨_, h⟩ := Action.answer_eq_ok h
  obtain ⟨header, field, hheader, h⟩ := Action.ok_of_bind h
  split at h
  · cases h
  · rename_i hversion
    obtain ⟨chain, rest, hpointer, h⟩ := Action.ok_of_bind h
    split at h
    · cases h
    · rename_i homitted
      obtain ⟨table', next, hread, h⟩ := Action.ok_of_bind h
      cases h
      obtain ⟨hcounted, -⟩ : header.countEncoding.isOmitted = false ∧
          header.tableEncoding.isOmitted = false := by simpa using homitted
      exact ⟨header, rest, chain, ⟨not_not.mp hversion, field, hheader, hpointer⟩,
        hasTable_of_readSearchTable hcounted hread⟩

theorem PointsTo.scan {chain : UInt64} (hpoints : PointsTo target hdr header rest chain)
    (homitted : header.countEncoding.isOmitted || header.tableEncoding.isOmitted) (ip : UInt64) :
    findProcInHeader target hdr ip =
      (searchSection target .ehFrame { data := hdr } maxWord ip chain).map
        (·.procInfo .ehFrame { data := hdr }) := by
  rw [findProcInHeader_eq, hpoints.lookUpPath_chain homitted]
  rfl

theorem PointsTo.lookUp {chain : UInt64} (hpoints : PointsTo target hdr header rest chain)
    (htable : HasTable target hdr header rest table)
    (hsmall : target.arch.addressSize < 256) (hlists : table.Lists target listed) (ip : UInt64) :
    findProcInHeader target hdr ip =
      (table.findFde target ip).map (·.procInfo .ehFrame { data := hdr }) := by
  rw [findProcInHeader_eq, hpoints.lookUpPath_table htable hsmall,
    if_pos (htable.fits hsmall hlists)]
  rfl

end Cfi
end StackWalk
