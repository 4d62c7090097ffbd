import Mathlib.Tactic
import StackWalk.Proofs.Cfi.SectionSearch

/-!
# Looking up in any table

A header comes from memory that nobody has checked: its count may be any word,
and its table may be in no order.  Looking up an address is still safe.  It is
repeated here with each sum, product and difference checked and with the turns
of the search counted: on every memory it comes to the same answer, so nothing
overflows, the search is over after as many turns as a word has bits, and it
goes to no address but those of the pairs.  What it answers holds the address;
and if the table is in order, it goes to the FDE of the last pair that begins
at or before the address.
-/

namespace StackWalk.Cfi

variable {target : Target} {hdr ip : UInt64} {table : SearchTable}

/-! ## What is found holds the address -/

/-- The FDE at an address, if it holds `ip`. -/
def fdeHolding (target : Target) (bases : PointerBases) (ip address : UInt64) :
    Except UnwindError Fde := do
  let fde ← parseFde target address .ehFrame bases
  if fde.contains ip then
    return fde
  else
    throw (.noInfo ip)

theorem fdeHolding_eq_ok {bases : PointerBases} {address : UInt64} {fde : Fde}
    (h : fdeHolding target bases ip address = .ok fde) :
    parseFde target fde.address .ehFrame bases = .ok fde ∧ fde.contains ip = true := by
  obtain ⟨found, hparse, h⟩ := bind_eq_ok_iff.mp h
  split at h
  · rename_i hip
    cases h
    rw [(parseFde_eq_ok hparse).1]
    exact ⟨hparse, hip⟩
  · cases h

theorem searchSection_parsed {frameSection : FrameSection} {bases : PointerBases}
    {stop address : UInt64} {fde : Fde}
    (h : searchSection target frameSection bases stop ip address = .ok fde) :
    parseFde target fde.address frameSection bases = .ok fde ∧ fde.contains ip = true := by
  rw [searchSection_eq_iff (by simp)] at h
  obtain ⟨before, addr, after, -, hanswer, -⟩ := h
  obtain ⟨hparse, hip⟩ := answerAt_eq_ok_iff.mp hanswer
  rw [(parseFde_eq_ok hparse).1]
  exact ⟨hparse, hip⟩

namespace SearchTable

/-- The address of the FDE that the search leads to, if it leads to one. -/
def found (target : Target) (table : SearchTable) (ip : UInt64) :
    Except UnwindError (Option UInt64) := do
  let above ← table.search target ip 0 table.count.toNat
  if above = 0 then
    return none
  else
    let address ← table.fdeAddress target (UInt64.ofNat (above - 1))
    return some address

/-- The procedure that holds `ip` can only be the one that the search leads to. -/
def answerOf (target : Target) (table : SearchTable) (ip : UInt64) :
    Option UInt64 → Except UnwindError Fde
  | none => .error (.noInfo ip)
  | some address => fdeHolding target table.bases ip address

theorem findFde_eq_found (target : Target) (table : SearchTable) (ip : UInt64) :
    table.findFde target ip = table.found target ip >>= table.answerOf target ip := by
  unfold findFde found
  cases table.search target ip 0 table.count.toNat with
  | error e => rfl
  | ok above =>
      simp only [ok_bind]
      split
      · rfl
      · cases table.fdeAddress target (UInt64.ofNat (above - 1)) <;> rfl

theorem findFde_parsed {fde : Fde} (h : table.findFde target ip = .ok fde) :
    parseFde target fde.address .ehFrame table.bases = .ok fde ∧ fde.contains ip = true := by
  rw [findFde_eq_found] at h
  obtain ⟨parsed, -, h⟩ := bind_eq_ok_iff.mp h
  cases parsed with
  | none => cases h
  | some address => exact fdeHolding_eq_ok h

end SearchTable

theorem findProcInHeader_parsed {info : ProcInfo} (h : findProcInHeader target hdr ip = .ok info) :
    ∃ fde, parseFde target fde.address .ehFrame { data := hdr } = .ok fde ∧
      info = fde.procInfo .ehFrame { data := hdr } ∧ info.contains ip = true := by
  rw [findProcInHeader_eq] at h
  obtain ⟨path, hpath, h⟩ := bind_eq_ok_iff.mp h
  obtain ⟨fde, hfound, rfl⟩ := map_eq_ok_iff.mp h
  cases path with
  | chain address =>
      obtain ⟨hparse, hip⟩ := searchSection_parsed hfound
      exact ⟨fde, hparse, rfl, hip⟩
  | table listing =>
      obtain ⟨header, rest, chain, -, htable⟩ := lookUpPath_eq_table hpath
      obtain ⟨hparse, hip⟩ := SearchTable.findFde_parsed hfound
      rw [htable.bases] at hparse
      exact ⟨fde, hparse, rfl, hip⟩

namespace SearchTable

/-! ## Pairs -/

/-- The address is that of a pair, counted without a bound. -/
def IsEntry (table : SearchTable) (address : UInt64) : Prop :=
  ∃ i < table.count.toNat,
    address.toNat = table.start.toNat + i * (table.halfSize.toNat * 2)

/-- The address of a pair, unless it takes more than 64 bits. -/
def checkedEntry (table : SearchTable) (index : UInt64) : Option UInt64 := do
  let size ← checkedMul table.halfSize 2
  let offset ← checkedMul index size
  checkedAdd table.start offset

/-- The pairs of a table that fits are where they should be, and each ends
before the end of the address space. -/
theorem checkedEntry_eq (hfits : table.Fits) (hpair : table.halfSize.toNat * 2 < 2 ^ 64)
    {index : UInt64} (hindex : index.toNat < table.count.toNat) :
    table.checkedEntry index = some (table.entryAddress index) ∧
      (table.entryAddress index).toNat =
        table.start.toNat + index.toNat * (table.halfSize.toNat * 2) ∧
      (table.entryAddress index).toNat + table.halfSize.toNat * 2 < 2 ^ 64 := by
  have hend : table.start.toNat + index.toNat * (table.halfSize.toNat * 2) +
      table.halfSize.toNat * 2 < 2 ^ 64 := by
    have hle := Nat.mul_le_mul_right (table.halfSize.toNat * 2) hindex
    unfold Fits at hfits
    rw [Nat.succ_mul] at hle
    omega
  have haddress :=
    table.toNat_entryAddress hpair index (Nat.lt_of_le_of_lt (Nat.le_add_right ..) hend)
  refine ⟨?_, haddress, haddress ▸ hend⟩
  have hsize : checkedMul table.halfSize 2 = some (table.halfSize * 2) := checkedMul_of_lt hpair
  unfold checkedEntry
  rw [hsize]
  refine (checkedMul_bind_checkedAdd ..).trans (if_pos ?_)
  rw [table.toNat_pairSize hpair]
  omega

theorem isEntry_entryAddress (hfits : table.Fits) (hpair : table.halfSize.toNat * 2 < 2 ^ 64)
    {index : UInt64} (hindex : index.toNat < table.count.toNat) :
    table.IsEntry (table.entryAddress index) :=
  ⟨index.toNat, hindex, (checkedEntry_eq hfits hpair hindex).2.1⟩

/-! ## Turns of the search -/

/-- What is left to search after one turn. -/
def turn (target : Target) (table : SearchTable) (ip : UInt64) (base length : Nat) :
    Except UnwindError (Nat × Nat) := do
  let half := length / 2
  let first ← table.initialLocation target (UInt64.ofNat (base + half))
  if first ≤ ip then
    return (base + half + 1, length - (half + 1))
  else
    return (base, half)

theorem search_eq (target : Target) (table : SearchTable) (ip : UInt64) (base length : Nat) :
    table.search target ip base length =
      if length = 0 then .ok base
      else table.turn target ip base length >>= fun rest =>
        table.search target ip rest.1 rest.2 := by
  rw [search]
  unfold turn
  dsimp only
  cases table.initialLocation target (UInt64.ofNat (base + length / 2)) with
  | error e => rfl
  | ok first => by_cases hle : first ≤ ip <;> simp [hle]

/-- A turn leaves a part of what it was given, of at most half the length. -/
theorem turn_within {base length : Nat} {rest : Nat × Nat} (hlength : length ≠ 0)
    (h : table.turn target ip base length = .ok rest) :
    rest.1 + rest.2 ≤ base + length ∧ rest.2 ≤ length / 2 := by
  obtain ⟨first, -, h⟩ := bind_eq_ok_iff.mp h
  split at h <;> cases h <;> dsimp only <;> omega

theorem search_le {base length above : Nat} (h : table.search target ip base length = .ok above) :
    above ≤ base + length := by
  fun_induction table.search target ip base length with
  | case1 base => exact Nat.le_of_eq (Except.ok.inj h).symm
  | case2 => cases h
  | case3 base length hlength half first hread hle ih =>
      have := ih h
      omega
  | case4 base length hlength half first hread hgt ih =>
      have := ih h
      omega

/-- One turn with checked arithmetic: the address of the pair that is read, and
what is left to search. -/
def checkedTurn (target : Target) (table : SearchTable) (ip base length : UInt64) :
    Option (UInt64 × Except UnwindError (UInt64 × UInt64)) := do
  let half := length / 2
  let middle ← checkedAdd base half
  let entry ← table.checkedEntry middle
  match table.pointerAt target entry with
  | .error e => return (entry, .error e)
  | .ok first =>
      if first ≤ ip then
        let next ← checkedAdd middle 1
        let passed ← checkedAdd half 1
        let left ← checkedSub length passed
        return (entry, .ok (next, left))
      else
        return (entry, .ok (base, half))

/-- At most `turns` turns with checked arithmetic: the addresses of the pairs
that are read, and the answer of the search. -/
def checkedSearch (target : Target) (table : SearchTable) (ip : UInt64) (turns : Nat)
    (base length : UInt64) : Option (List UInt64 × Except UnwindError UInt64) :=
  if length = 0 then
    some ([], .ok base)
  else
    match turns with
    | 0 => none
    | turns + 1 => do
        let (entry, rest) ← table.checkedTurn target ip base length
        match rest with
        | .error e => return ([entry], .error e)
        | .ok (base, length) =>
            let (entries, answer) ← table.checkedSearch target ip turns base length
            return (entry :: entries, answer)

theorem checkedTurn_eq (target : Target) (hfits : table.Fits)
    (hpair : table.halfSize.toNat * 2 < 2 ^ 64) (ip : UInt64) {base length : UInt64}
    (hlength : length.toNat ≠ 0)
    (hwithin : base.toNat + length.toNat ≤ table.count.toNat) :
    ∃ entry rest, table.checkedTurn target ip base length = some (entry, rest) ∧
      table.IsEntry entry ∧
      rest.map (Prod.map UInt64.toNat UInt64.toNat) =
        table.turn target ip base.toNat length.toNat := by
  have hcount := table.count.toNat_lt
  have hhalf : (length / 2).toNat = length.toNat / 2 := UInt64.toNat_div length 2
  obtain ⟨middle, haddMiddle, hmiddle⟩ :=
    exists_checkedAdd (show base.toNat + (length / 2).toNat < 2 ^ 64 by omega)
  have hindex : middle.toNat < table.count.toNat := by omega
  have hread : table.initialLocation target (UInt64.ofNat (base.toNat + length.toNat / 2)) =
      table.pointerAt target (table.entryAddress middle) := by
    rw [← hhalf, ← hmiddle, UInt64.ofNat_toNat]
    rfl
  have hentry := (checkedEntry_eq hfits hpair hindex).1
  unfold checkedTurn turn
  simp only [haddMiddle, hentry, hread, Option.bind_eq_bind, Option.bind_some]
  cases table.pointerAt target (table.entryAddress middle) with
  | error e => exact ⟨_, _, rfl, isEntry_entryAddress hfits hpair hindex, rfl⟩
  | ok first =>
      by_cases hle : first ≤ ip
      · obtain ⟨next, haddNext, hnext⟩ := exists_checkedAdd_one hindex
        obtain ⟨passed, haddPassed, hpassed⟩ :=
          exists_checkedAdd_one (show (length / 2).toNat < length.toNat by omega)
        obtain ⟨left, hsub, hleft⟩ :=
          exists_checkedSub (show passed.toNat ≤ length.toNat by omega)
        refine ⟨_, .ok (next, left), by simp [hle, haddNext, haddPassed, hsub],
          isEntry_entryAddress hfits hpair hindex, ?_⟩
        simp only [ok_bind, if_pos hle, Except.map, Prod.map, hnext, hleft, hmiddle, hpassed, hhalf,
          pure_eq_ok]
      · refine ⟨_, .ok (base, length / 2), by simp [hle],
          isEntry_entryAddress hfits hpair hindex, ?_⟩
        simp only [ok_bind, if_neg hle, Except.map, Prod.map, hhalf, pure_eq_ok]

/-- A search in a table that fits is over after as many turns as the length has
bits, and nothing overflows. -/
theorem checkedSearch_eq (target : Target) (hfits : table.Fits)
    (hpair : table.halfSize.toNat * 2 < 2 ^ 64) (ip : UInt64) (turns : Nat) (base length : UInt64)
    (hwithin : base.toNat + length.toNat ≤ table.count.toNat) (hturns : length.toNat < 2 ^ turns) :
    ∃ entries answer, table.checkedSearch target ip turns base length = some (entries, answer) ∧
      answer.map UInt64.toNat = table.search target ip base.toNat length.toNat ∧
      ∀ entry ∈ entries, table.IsEntry entry := by
  -- A turn leaves at most half of the length, which has one bit less.
  induction turns generalizing base length with
  | zero =>
      obtain rfl : length = 0 := UInt64.toNat_inj.mp (Nat.lt_one_iff.mp hturns)
      refine ⟨[], .ok base, by simp [checkedSearch], ?_, by simp⟩
      rw [search_eq]
      rfl
  | succ turns ih =>
      rw [search_eq]
      by_cases hlength : length.toNat = 0
      · obtain rfl : length = 0 := UInt64.toNat_inj.mp hlength
        exact ⟨[], .ok base, by simp [checkedSearch], rfl, by simp⟩
      · obtain ⟨entry, rest, hturn, hentry, hrest⟩ :=
          checkedTurn_eq target hfits hpair ip hlength hwithin
        have hnonzero : length ≠ 0 := by
          rintro rfl
          exact hlength rfl
        rw [if_neg hlength, ← hrest]
        cases rest with
        | error e =>
            refine ⟨[entry], .error e, ?_, rfl, by simpa using hentry⟩
            simp [checkedSearch, hnonzero, hturn]
        | ok rest =>
            obtain ⟨hle, hhalf⟩ := turn_within hlength hrest.symm
            dsimp only [Prod.map] at hle hhalf
            obtain ⟨entries, answer, hsearch, hanswer, hentries⟩ :=
              ih rest.1 rest.2 (by omega) (by omega)
            refine ⟨entry :: entries, answer, ?_, hanswer, ?_⟩
            · simp [checkedSearch, hnonzero, hturn, hsearch]
            · exact List.forall_mem_cons.mpr ⟨hentry, hentries⟩

/-! ## Looking up an address -/

/-- What `found` gives, found in at most `turns` turns with checked arithmetic,
with the addresses of the pairs that are read. -/
def checkedFound (target : Target) (table : SearchTable) (turns : Nat) (ip : UInt64) :
    Option (List UInt64 × Except UnwindError (Option UInt64)) := do
  let (entries, above) ← table.checkedSearch target ip turns 0 table.count
  match above with
  | .error e => return (entries, .error e)
  | .ok above =>
      if above = 0 then
        return (entries, .ok none)
      else
        let last ← checkedSub above 1
        let entry ← table.checkedEntry last
        let second ← checkedAdd entry table.halfSize
        return (entries ++ [entry], (table.pointerAt target second).map some)

theorem checkedFound_eq (target : Target) (hfits : table.Fits)
    (hpair : table.halfSize.toNat * 2 < 2 ^ 64) (ip : UInt64) :
    ∃ entries, table.checkedFound target 64 ip = some (entries, table.found target ip) ∧
      ∀ entry ∈ entries, table.IsEntry entry := by
  obtain ⟨entries, answer, hsearch, hanswer, hentries⟩ :=
    checkedSearch_eq target hfits hpair ip 64 0 table.count (by simp) table.count.toNat_lt
  rw [UInt64.toNat_zero] at hanswer
  unfold checkedFound found
  rw [← hanswer, hsearch]
  cases answer with
  | error e => exact ⟨entries, rfl, hentries⟩
  | ok above =>
      by_cases hzero : above = 0
      · subst hzero
        exact ⟨entries, rfl, hentries⟩
      · have habove := search_le hanswer.symm
        have hpos : above.toNat ≠ 0 := fun h => hzero (UInt64.toNat_inj.mp h)
        obtain ⟨last, hsub, hlast⟩ :=
          exists_checkedSub (show UInt64.toNat 1 ≤ above.toNat from Nat.one_le_iff_ne_zero.mpr hpos)
        rw [UInt64.toNat_one] at hlast
        have hindex : last.toNat < table.count.toNat := by omega
        obtain ⟨hentry, -, hend⟩ := checkedEntry_eq hfits hpair hindex
        have hsecond : checkedAdd (table.entryAddress last) table.halfSize =
            some (table.entryAddress last + table.halfSize) := checkedAdd_of_lt (by omega)
        refine ⟨entries ++ [table.entryAddress last], ?_, ?_⟩
        · have hread : table.fdeAddress target (UInt64.ofNat (above.toNat - 1)) =
              table.pointerAt target (table.entryAddress last + table.halfSize) := by
            rw [← hlast, UInt64.ofNat_toNat]
            rfl
          simp only [Option.bind_eq_bind, Option.bind_some, if_neg hzero, hsub, hentry, hsecond,
            Except.map, ok_bind, if_neg hpos, hread]
          cases table.pointerAt target (table.entryAddress last + table.halfSize) <;> rfl
        · intro entry hmem
          rcases List.mem_append.mp hmem with hmem | hmem
          · exact hentries entry hmem
          · obtain rfl := List.mem_singleton.mp hmem
            exact isEntry_entryAddress hfits hpair hindex

/-! ## Tables in order -/

/-- All of the table can be read, and its pairs are these. -/
structure Spells (target : Target) (table : SearchTable) (pairs : List (UInt64 × UInt64)) :
    Prop where
  count : table.count.toNat = pairs.length
  initialLocation : ∀ i (h : i < pairs.length),
    table.initialLocation target (UInt64.ofNat i) = .ok pairs[i].1
  fdeAddress : ∀ i (h : i < pairs.length),
    table.fdeAddress target (UInt64.ofNat i) = .ok pairs[i].2

theorem Splits.filter_eq_take {Item : Type} {first : Item → UInt64} {items : List Item}
    {above : Nat} (hsplits : Splits first items ip above) :
    items.filter (first · ≤ ip) = items.take above := by
  have hbelow : (items.take above).filter (first · ≤ ip) = items.take above := by
    rw [List.filter_eq_self]
    intro item hmem
    obtain ⟨i, hi, rfl⟩ := List.mem_take_iff_getElem.mp hmem
    exact decide_eq_true (hsplits.below i (by omega) (by omega))
  have hbehind : (items.drop above).filter (first · ≤ ip) = [] := by
    rw [List.filter_eq_nil_iff]
    intro item hmem
    obtain ⟨i, hi, rfl⟩ := List.mem_drop_iff_getElem.mp hmem
    have hlt := hsplits.behind (above + i) (by omega) (by omega)
    simpa using hlt
  conv_lhs => rw [← List.take_append_drop above items]
  rw [List.filter_append, hbelow, hbehind, List.append_nil]

/-- In a table in order the search leads to the last pair that begins at or
before the address. -/
theorem Spells.found_eq {pairs : List (UInt64 × UInt64)} (hspells : table.Spells target pairs)
    (hsorted : pairs.Pairwise (·.1 ≤ ·.1)) (ip : UInt64) :
    table.found target ip = .ok ((pairs.filter (·.1 ≤ ip)).getLast?.map Prod.snd) := by
  have hascends : table.Ascends target Prod.fst pairs := ⟨hspells.initialLocation, hsorted⟩
  obtain ⟨above, hsearch, hsplits⟩ := hascends.search_all hspells.count ip
  unfold found
  rw [hsearch, ok_bind, hsplits.filter_eq_take]
  cases above with
  | zero => rfl
  | succ last =>
      have hlast : last < pairs.length := hsplits.le_length
      rw [if_neg (Nat.succ_ne_zero last), Nat.add_sub_cancel, hspells.fdeAddress last hlast]
      simp [List.getLast?_take, hlast]

end SearchTable

/-! ## Headers -/

theorem lookUpPath_eq_table_iff (hsmall : target.arch.addressSize < 256) :
    lookUpPath target hdr = .ok (.table table) ↔
      table.Fits ∧ ∃ header rest chain, PointsTo target hdr header rest chain ∧
        HasTable target hdr header rest table := by
  constructor
  · intro h
    obtain ⟨header, rest, chain, hpoints, htable⟩ := lookUpPath_eq_table h
    refine ⟨?_, header, rest, chain, hpoints, htable⟩
    -- Had the table not fitted, the header would not have led to it.
    by_contra hlong
    rw [hpoints.lookUpPath_table htable hsmall, if_neg hlong] at h
    cases h
  · rintro ⟨hfits, header, rest, chain, hpoints, htable⟩
    rw [hpoints.lookUpPath_table htable hsmall, if_pos hfits]

theorem PointsTo.tableTooLong {header : TableHeader} {rest chain : UInt64}
    (hpoints : PointsTo target hdr header rest chain)
    (htable : HasTable target hdr header rest table) (hsmall : target.arch.addressSize < 256)
    (hlong : ¬table.Fits) (ip : UInt64) :
    findProcInHeader target hdr ip = .error (.invalidArgument .tableTooLong) := by
  rw [findProcInHeader_eq, hpoints.lookUpPath_table htable hsmall, if_neg hlong, error_bind]

/-- An address looked up through a header, with what was used on the way. -/
structure LookUp where
  /-- The table that was searched, if there was one. -/
  table : Option SearchTable
  /-- The addresses of the pairs that were read. -/
  entries : List UInt64
  /-- The address of the FDE that the table led to, and that was parsed. -/
  parsed : Option UInt64
  answer : Except UnwindError ProcInfo

namespace LookUp

/-- No table was searched. -/
def direct (answer : Except UnwindError ProcInfo) : LookUp where
  table := none
  entries := []
  parsed := none
  answer := answer

/-- A table was searched and led to `found`, which is parsed. -/
def through (target : Target) (hdr ip : UInt64) (table : SearchTable) (entries : List UInt64)
    (found : Except UnwindError (Option UInt64)) : LookUp where
  table := some table
  entries := entries
  parsed := found.toOption.join
  answer := (found >>= table.answerOf target ip).map (·.procInfo .ehFrame { data := hdr })

theorem answer_through (target : Target) (hdr ip : UInt64) (table : SearchTable)
    (entries : List UInt64) (found : Except UnwindError (Option UInt64)) {address : UInt64}
    (h : (through target hdr ip table entries found).parsed = some address) :
    (through target hdr ip table entries found).answer =
      (fdeHolding target table.bases ip address).map (·.procInfo .ehFrame { data := hdr }) := by
  obtain rfl : found = .ok (some address) := by
    rcases found with e | _ | other <;> simp_all [through, Except.toOption]
  rfl

theorem through_inOrder {pairs : List (UInt64 × UInt64)} (hspells : table.Spells target pairs)
    (hsorted : pairs.Pairwise (·.1 ≤ ·.1)) (hdr ip : UInt64) (entries : List UInt64) :
    (through target hdr ip table entries (table.found target ip)).parsed =
        (pairs.filter (·.1 ≤ ip)).getLast?.map Prod.snd ∧
      ((through target hdr ip table entries (table.found target ip)).answer =
          .error (.noInfo ip) ∧
        (through target hdr ip table entries (table.found target ip)).parsed = none ↔
        ∀ pair ∈ pairs, ip < pair.1) := by
  rw [hspells.found_eq hsorted]
  refine ⟨rfl, ?_⟩
  have hnone : (pairs.filter (·.1 ≤ ip)).getLast? = none ↔ ∀ pair ∈ pairs, ip < pair.1 := by
    simp
  rw [← hnone]
  cases (pairs.filter (·.1 ≤ ip)).getLast? with
  | none => simp [through, Except.toOption, SearchTable.answerOf, Except.map]
  | some pair => simp [through, Except.toOption]

end LookUp

/-- Looks up an address with at most `turns` turns of the search and with
checked arithmetic. -/
def checkedFindProc (target : Target) (turns : Nat) (hdr ip : UInt64) : Option LookUp :=
  match lookUpPath target hdr with
  | .error e => some (.direct (.error e))
  | .ok (.chain address) =>
      let fde := searchSection target .ehFrame { data := hdr } maxWord ip address
      some (.direct (fde.map (·.procInfo .ehFrame { data := hdr })))
  | .ok (.table table) => do
      let (entries, found) ← table.checkedFound target turns ip
      return .through target hdr ip table entries found

/-- Looking up an address is safe on any table, for the size of an address is
kept in a byte.  What it answers holds the address.  A table that does not end
before the end of the address space is refused.  Any other is searched without
overflow, in at most 64 turns, and no address is computed but those of its
pairs.  If the whole table can be read and is in order, the FDE that is parsed
is that of the last pair that begins at or before the address, and the answer
is that nothing covers it, with no FDE parsed, exactly if there is no such
pair. -/
theorem findProcInHeader_safe (hsmall : target.arch.addressSize < 256) (hdr ip : UInt64) :
    (∀ info, findProcInHeader target hdr ip = .ok info → info.contains ip = true) ∧
    (∀ header rest chain table, PointsTo target hdr header rest chain →
      HasTable target hdr header rest table →
        table.halfSize.toNat * 2 < 2 ^ 64 ∧
          (¬table.Fits →
            findProcInHeader target hdr ip = .error (.invalidArgument .tableTooLong))) ∧
    ∃ run, checkedFindProc target 64 hdr ip = some run ∧
      run.answer = findProcInHeader target hdr ip ∧
      (∀ table, run.table = some table ↔
        table.Fits ∧ ∃ header rest chain, PointsTo target hdr header rest chain ∧
          HasTable target hdr header rest table) ∧
      (∀ entry ∈ run.entries, ∃ table ∈ run.table, table.IsEntry entry) ∧
      (∀ address ∈ run.parsed,
        run.answer = (fdeHolding target { data := hdr } ip address).map
          (·.procInfo .ehFrame { data := hdr })) ∧
      ∀ table ∈ run.table, ∀ pairs, table.Spells target pairs → pairs.Pairwise (·.1 ≤ ·.1) →
        run.parsed = (pairs.filter (·.1 ≤ ip)).getLast?.map Prod.snd ∧
          (run.answer = .error (.noInfo ip) ∧ run.parsed = none ↔
            ∀ pair ∈ pairs, ip < pair.1) := by
  refine ⟨?_, ?_, ?_⟩
  · intro info h
    obtain ⟨fde, -, -, hip⟩ := findProcInHeader_parsed h
    exact hip
  · intro header rest chain table hpoints htable
    exact ⟨htable.pairSize_lt hsmall, fun hlong => hpoints.tableTooLong htable hsmall hlong ip⟩
  · simp only [← lookUpPath_eq_table_iff hsmall]
    rw [findProcInHeader_eq]
    unfold checkedFindProc
    cases hpath : lookUpPath target hdr with
    | error e => exact ⟨.direct _, rfl, rfl, by simp [LookUp.direct]⟩
    | ok path =>
        cases path with
        | chain address => exact ⟨.direct _, rfl, rfl, by simp [LookUp.direct]⟩
        | table table =>
            obtain ⟨hfits, header, rest, chain, -, htable⟩ :=
              (lookUpPath_eq_table_iff hsmall).mp hpath
            obtain ⟨entries, hfound, hentries⟩ :=
              table.checkedFound_eq target hfits (htable.pairSize_lt hsmall) ip
            refine ⟨.through target hdr ip table entries (table.found target ip), ?_, ?_, ?_, ?_,
              ?_, ?_⟩
            · dsimp only
              rw [hfound]
              rfl
            · exact congrArg (Except.map _) (table.findFde_eq_found target ip).symm
            · intro other
              simp [LookUp.through]
            · exact fun entry hmem => ⟨table, rfl, hentries entry hmem⟩
            · intro address hparsed
              have hanswer := LookUp.answer_through _ _ _ _ _ _ hparsed
              rwa [htable.bases] at hanswer
            · rintro _ ⟨⟩ pairs hspells hsorted
              exact LookUp.through_inOrder hspells hsorted hdr ip entries

/-! ## A table for all of memory -/

/-- A header whose table has `count` pairs, and nothing else. -/
def countedTarget (count : UInt64) : Target where
  arch := .x86_64
  loadWord addr :=
    if addr = 0x1000 then .ok 0x001000003b040301
    else if addr = 0x1008 then .ok count
    else .error (.unreadable addr)
  loadReg _ := .ok 0
  loadFpReg reg := .error (.badRegister (UInt64.ofNat reg))

def countedHeader : TableHeader where
  version := 1
  framePointerEncoding := ⟨0x03⟩
  countEncoding := ⟨0x04⟩
  tableEncoding := ⟨0x3b⟩

def countedTable (count : UInt64) : SearchTable where
  encoding := ⟨0x3b⟩
  bases := { data := 0x1000 }
  start := 0x1010
  halfSize := 4
  count := count

/-- The table of two functions leads to the earlier one, and a table with as
many pairs as there are words is refused. -/
theorem findProcInHeader_finds_or_refuses :
    ((twoFunctionsTarget 0x3b031b01).arch.addressSize < 256 ∧
      ∃ run, checkedFindProc (twoFunctionsTarget 0x3b031b01) 64 0x1000 0x300f = some run ∧
        run.table = some twoFunctionsTable ∧ run.parsed = some 0x103c ∧
        run.answer = .ok (earlierFunction.procInfo .ehFrame { data := 0x1000 })) ∧
    (countedTarget maxWord).arch.addressSize < 256 ∧
      findProcInHeader (countedTarget maxWord) 0x1000 0x3000 =
        .error (.invalidArgument .tableTooLong) := by
  refine ⟨⟨by decide, ?_⟩, by decide, ?_⟩
  · obtain ⟨-, -, run, hrun, hanswer, htable, -, -, horder⟩ :=
      findProcInHeader_safe (by decide : (twoFunctionsTarget 0x3b031b01).arch.addressSize < 256)
        0x1000 0x300f
    have hpoints : PointsTo (twoFunctionsTarget 0x3b031b01) 0x1000 twoFunctionsHeader 0x1008
        0x101c := ⟨rfl, 0x1004, by cbv, by cbv⟩
    have hhas : HasTable (twoFunctionsTarget 0x3b031b01) 0x1000 twoFunctionsHeader 0x1008
        twoFunctionsTable := ⟨by decide, by cbv, ⟨4, by cbv, rfl⟩, rfl, rfl⟩
    have hsearched : run.table = some twoFunctionsTable :=
      (htable twoFunctionsTable).mpr ⟨by decide, _, _, _, hpoints, hhas⟩
    have hspells : twoFunctionsTable.Spells (twoFunctionsTarget 0x3b031b01)
        [(0x3000, 0x103c), (0x4000, 0x102c)] := by
      have hindex : ∀ i < 2, i = 0 ∨ i = 1 := by omega
      refine ⟨rfl, ?_, ?_⟩
      · intro i hi
        obtain rfl | rfl := hindex i hi <;> cbv
      · intro i hi
        obtain rfl | rfl := hindex i hi <;> cbv
    have hparsed := (horder _ hsearched _ hspells (by decide)).1
    exact ⟨run, hrun, hsearched, hparsed.trans (by decide), hanswer.trans (by cbv)⟩
  · have hpoints : PointsTo (countedTarget maxWord) 0x1000 countedHeader 0x1008 0x100000 :=
      ⟨rfl, 0x1004, by cbv, by cbv⟩
    have hhas : HasTable (countedTarget maxWord) 0x1000 countedHeader 0x1008
        (countedTable maxWord) := ⟨by decide, by cbv, ⟨4, by cbv, rfl⟩, rfl, rfl⟩
    obtain ⟨-, htable, -⟩ :=
      findProcInHeader_safe (by decide : (countedTarget maxWord).arch.addressSize < 256)
        0x1000 0x3000
    exact (htable _ _ _ _ hpoints hhas).2 (by decide)

end StackWalk.Cfi
