import Mathlib
import StackWalk.Proofs.Cursor.AtRest
import StackWalk.Proofs.Cursor.FrameRecord
import StackWalk.Session

/-!
# Two ways along a chain of frame records

A program whose functions keep frame pointers can be walked by them, and by
call frame information that describes them.  One lemma says what either way
finds at a frame; the walk along a chain of any length follows by induction.
-/

namespace StackWalk

variable {World Thread : Type}

/-- The code at an address is neither a signal trampoline nor a linkage stub. -/
structure Target.Plain (target : Target) (ip : UInt64) : Prop where
  noTrampoline : Heuristic.SignalFrame.layoutAt target ip = none
  noStub : (target.arch.pltEntry.filter fun pattern => target.codeMatches ip pattern) = none

/-- The cursor is at the frame above a record. -/
structure FrameRecord.Reached (arch : Arch) (fpReg : Column) (record : FrameRecord)
    (cursor : Cursor Thread) : Prop where
  ip : cursor.ip = record.ra
  cfa : cursor.cfa = record.cfa arch
  fpLocation : cursor.locs.of fpReg = .memory record.fp false
  raLocation : cursor.locs.of arch.returnAddress = .memory (record.fp + arch.wordSize) false
  spLocation : cursor.locs.of arch.sp = .value (record.cfa arch)

namespace Walk

variable {arch : Arch} {target : Target} {procs : UInt64 → Except UnwindError ProcInfo}
  {fpReg : Column} {record : FrameRecord}

/-! ## One frame -/

/-- From any frame whose frame pointer is at the record, and that is looked up
at an address, one gets to the frame above the record; `exact` says whether
that frame was interrupted. -/
def Leads (target : Target) (procs : UInt64 → Except UnwindError ProcInfo) (fpReg : Column)
    (lookup : UInt64) (record : FrameRecord) (exact : Bool) : Prop :=
  ∀ (Thread : Type) (cursor : Cursor Thread), cursor.lookupIp = lookup → target.Plain cursor.ip →
    (cursor.locs.of fpReg).read target fpReg = .ok record.fp →
      ∃ method, unwoundAt target procs cursor = .ok {
        cfa := record.cfa target.arch
        locs := record.callerLocs target.arch fpReg cursor.locs
        ipColumn := target.arch.returnAddress
        method := method
        exactIp := exact
        raSigned := false }

/-- The lookup of an address finds nothing to unwind by. -/
def Undescribed (procs : UInt64 → Except UnwindError ProcInfo) (ip : UInt64) : Prop :=
  procs ip = .error (.noInfo ip) ∨ ∃ info, procs ip = .ok info ∧ info.unwindInfo = .absent

/-- The lookup of an address finds an FDE whose row there is `row`: the frame
pointer and the return address are in the record, and the CFA is behind it. -/
structure Described (target : Target) (procs : UInt64 → Except UnwindError ProcInfo)
    (fpReg : Column) (ip : UInt64) (row : Row) : Prop where
  found : ∃ info address frameSection fde,
    procs ip = .ok info ∧ info.contains ip = true ∧
      info.unwindInfo = .dwarf address frameSection ∧
      Cfi.parseFde target address frameSection info.pointerBases = .ok fde ∧
      fde.contains ip = true ∧
      (Cfi.rowAt target .empty fde ip info.pointerBases).1 = .ok row
  table : row.current = target.arch.recordTable fpReg
  returnAddress : row.returnAddress = target.arch.returnAddress
  unsigned : row.raSigned = false

theorem rulesAt_of_undescribed {key : CacheKey} (h : Undescribed procs key.ip) :
    rulesAt target procs key = .error (.noInfo key.ip) := by
  unfold rulesAt
  rcases h with hnone | ⟨info, hinfo, habsent⟩
  · rw [hnone, error_bind]
  · rw [hinfo, ok_bind]
    unfold rowIn
    cases hip : info.contains key.ip <;> simp [habsent]

theorem rulesAt_of_described {key : CacheKey} {row : Row}
    (h : Described target procs fpReg key.ip row) :
    ∃ info, rulesAt target procs key = .ok (row.toScript, info) := by
  obtain ⟨info, address, frameSection, fde, hinfo, hcontains, hdwarf, hparse, hholds, hrow⟩ :=
    h.found
  refine ⟨info, ?_⟩
  unfold rulesAt rowIn
  simp [hinfo, hcontains, hdwarf, hparse, hholds, hrow]

theorem leads_of_undescribed (harch : target.arch.KeepsRecords fpReg)
    (hrecord : record.InMemory target) {lookup : UInt64} (h : Undescribed procs lookup) :
    Leads target procs fpReg lookup record false := by
  intro Thread cursor hlookup hplain hfp
  have hrules : rulesAt target procs ⟨cursor.lookupIp, cursor.predicates⟩ =
      .error (.noInfo cursor.lookupIp) :=
    rulesAt_of_undescribed (by rw [hlookup]; exact h)
  have hstub : Heuristic.PltStub.step target cursor.frame = .ok none := by
    unfold Heuristic.PltStub.step
    rw [show cursor.frame.ip = cursor.ip from rfl]
    simp only [hplain.noStub]
    rfl
  have hstep := FrameRecord.framePointer_step harch hrecord cursor.frame hfp
  refine ⟨.framePointer, ?_⟩
  unfold unwoundAt ruledAt unwindByHeuristics
  rw [hrules, hstub, hstep]
  rfl

theorem leads_of_described (harch : target.arch.KeepsRecords fpReg)
    (hrecord : record.InMemory target) {lookup : UInt64} {row : Row}
    (h : Described target procs fpReg lookup row) :
    Leads target procs fpReg lookup record row.signalFrame := by
  intro Thread cursor hlookup hplain hfp
  subst hlookup
  obtain ⟨info, hrules⟩ : ∃ info, rulesAt target procs ⟨cursor.lookupIp, cursor.predicates⟩ =
      .ok (row.toScript, info) :=
    rulesAt_of_described h
  have happlied : applyRules target cursor.locs row.toScript.cfa row.toScript.rules =
      .ok (record.cfa target.arch, record.callerLocs target.arch fpReg cursor.locs) := by
    unfold Row.toScript
    rw [h.table]
    exact FrameRecord.applyRules_eq harch hrecord hfp
  have hruled : ruledAt target procs cursor =
      .ok (callerByRules row.toScript info (record.cfa target.arch)
        (record.callerLocs target.arch fpReg cursor.locs)) := by
    unfold ruledAt
    simp only [hrules, ok_bind, happlied, pure_eq_ok]
  refine ⟨(callerByRules row.toScript info 0 cursor.locs).method, ?_⟩
  unfold unwoundAt
  rw [hruled]
  simp only [callerByRules, Row.toScript, h.returnAddress, h.unsigned]

/-! ## One step -/

theorem callerLocs_ra (harch : arch.KeepsRecords fpReg) (locs : Locations) :
    (record.callerLocs arch fpReg locs).of arch.returnAddress =
      .memory (record.fp + arch.wordSize) false := by
  unfold FrameRecord.callerLocs
  rw [Locations.of_put_ne harch.ra_ne_sp.symm, Locations.of_put_self harch.ra_lt]

theorem callerIp_of_record (harch : target.arch.KeepsRecords fpReg)
    (hrecord : record.InMemory target) {cursor : Cursor Thread} (locs : Locations)
    (method : StepMethod) (exact : Bool)
    (hmoves : (record.ra, record.cfa target.arch) ≠ (cursor.ip, cursor.cfa)) :
    callerIp target cursor {
      cfa := record.cfa target.arch
      locs := record.callerLocs target.arch fpReg locs
      ipColumn := target.arch.returnAddress
      method := method
      exactIp := exact
      raSigned := false } = .ok (some record.ra) := by
  have hra : (record.callerLocs target.arch fpReg locs).of target.arch.returnAddress =
      .memory (record.fp + target.arch.wordSize) false := callerLocs_ra harch locs
  have hread : Location.read (.memory (record.fp + target.arch.wordSize) false) target
      target.arch.returnAddress = .ok record.ra := hrecord.stored
  have hstay : ¬(record.ra = cursor.ip ∧ record.cfa target.arch = cursor.cfa) := by
    rintro ⟨hip, hcfa⟩
    exact hmoves (by rw [hip, hcfa])
  unfold callerIp
  simp only [hra, hread, ok_bind, Location.isLost, Bool.false_eq_true, if_false, hrecord.ra_ne_zero,
    if_neg hstay, hrecord.ra_aligned, ne_eq, not_true_eq_false, pure_eq_ok]

theorem reached_of_commit (harch : arch.KeepsRecords fpReg) {cursor : Cursor Thread}
    {locs : Locations} {method : StepMethod} {exact : Bool} (hint : Option Nat)
    (workspace : Workspace) :
    record.Reached arch fpReg
      { commit arch cursor {
          cfa := record.cfa arch
          locs := record.callerLocs arch fpReg locs
          ipColumn := arch.returnAddress
          method := method
          exactIp := exact
          raSigned := false } record.ra with hint := hint, workspace := workspace } := by
  have hra : (record.callerLocs arch fpReg locs).of arch.returnAddress =
      .memory (record.fp + arch.wordSize) false := callerLocs_ra harch locs
  refine ⟨rfl, rfl, ?_, ?_, ?_⟩
  · simp only [commit, Locations.of_put_ne harch.ip_ne_fp]
    unfold FrameRecord.callerLocs
    rw [Locations.of_put_ne harch.fp_ne_sp.symm, Locations.of_put_ne harch.fp_ne_ra.symm,
      Locations.of_put_self harch.fp_lt]
  · simp only [commit, hra]
    by_cases hip : arch.ip = arch.returnAddress
    · rw [hip, Locations.of_put_self harch.ra_lt]
    · rw [Locations.of_put_ne hip, hra]
  · simp only [commit, Locations.of_put_ne harch.ip_ne_sp]
    unfold FrameRecord.callerLocs
    rw [Locations.of_put_self harch.sp_lt]

variable {space : AddressSpace World Thread} {thread : Thread} {world : World}

theorem step_of_leads (hrest : space.AtRest thread world target procs)
    (harch : target.arch.KeepsRecords fpReg) (hrecord : record.InMemory target)
    {walk : Walk World Thread} (hwalk : Resting space thread world target procs walk)
    {exact : Bool} (hleads : Leads target procs fpReg walk.cursor.lookupIp record exact)
    (hplain : target.Plain walk.cursor.ip)
    (hfp : (walk.cursor.locs.of fpReg).read target fpReg = .ok record.fp)
    (hmoves : (record.ra, record.cfa target.arch) ≠ (walk.cursor.ip, walk.cursor.cfa)) :
    ∃ after, step space walk = .ok true after ∧
      Resting space thread world target procs after ∧
      record.Reached target.arch fpReg after.cursor ∧
      after.cursor.lookupIp = if exact then record.ra else record.ra - 1 := by
  obtain ⟨method, hfound⟩ := hleads Thread walk.cursor rfl hplain hfp
  have hip := callerIp_of_record harch hrecord walk.cursor.locs method exact hmoves
  obtain ⟨after, hint, workspace, hstep, hafter, hcursor⟩ :=
    hwalk.step hrest hplain.noTrampoline hfound hip
  refine ⟨after, hstep, hafter, ?_, ?_⟩
  · rw [hcursor]
    exact reached_of_commit harch hint workspace
  · rw [hcursor]
    cases exact <;> rfl

/-! ## The whole walk -/

/-- Each record of a chain is led to from the lookup of the frame below it. -/
def LeadsAlong (target : Target) (procs : UInt64 → Except UnwindError ProcInfo)
    (fpReg : Column) : UInt64 → List FrameRecord → Prop
  | _, [] => True
  | lookup, record :: rest =>
      ∃ exact, Leads target procs fpReg lookup record exact ∧
        LeadsAlong target procs fpReg (if exact then record.ra else record.ra - 1) rest

theorem climb_succ {walk next after : Walk World Thread} {max : Nat}
    {last : Except UnwindError Bool} {above : List (Cursor Thread)}
    (hstep : step space walk = .ok true next)
    (hclimb : climb space max next = .ok (last, above) after) :
    climb space (max + 1) walk = .ok (last, next.cursor :: above) after := by
  unfold climb
  rw [Action.bind_apply, Action.attempt_apply, hstep]
  simp only [Action.get_bind_apply]
  rw [Action.bind_eq_of_ok hclimb]
  rfl

theorem climb_of_leadsAlong (hrest : space.AtRest thread world target procs)
    (harch : target.arch.KeepsRecords fpReg) {records : List FrameRecord}
    (hstored : ∀ record ∈ records, record.InMemory target)
    (hlinked : records.IsChain fun record next => target.readWord record.fp = .ok next.fp)
    {walk : Walk World Thread} (hwalk : Resting space thread world target procs walk)
    (hleads : LeadsAlong target procs fpReg walk.cursor.lookupIp records)
    (hplain : ∀ ip ∈ walk.cursor.ip :: records.map (·.ra), target.Plain ip)
    (hmoves : ((walk.cursor.ip, walk.cursor.cfa) ::
      records.map fun record => (record.ra, record.cfa target.arch)).IsChain (· ≠ ·))
    (hfp : ∀ record ∈ records.head?,
      (walk.cursor.locs.of fpReg).read target fpReg = .ok record.fp) :
    ∃ cursors after, climb space records.length walk = .ok (.ok true, cursors) after ∧
      List.Forall₂ (·.Reached target.arch fpReg) records cursors := by
  induction records generalizing walk with
  | nil => exact ⟨[], walk, rfl, .nil⟩
  | cons record rest ih =>
      obtain ⟨exact, hleads, halong⟩ := hleads
      have hrecord := hstored record List.mem_cons_self
      have hhere := hplain walk.cursor.ip List.mem_cons_self
      rw [List.map_cons, List.isChain_cons_cons] at hmoves
      obtain ⟨next, hstep, hnext, hreached, hlookup⟩ :=
        step_of_leads hrest harch hrecord hwalk hleads hhere (hfp record rfl) hmoves.1.symm
      have hfpNext : ∀ later ∈ rest.head?,
          (next.cursor.locs.of fpReg).read target fpReg = .ok later.fp := by
        intro later hlater
        rw [hreached.fpLocation]
        exact (List.isChain_cons.mp hlinked).1 later hlater
      obtain ⟨cursors, after, hclimb, hcursors⟩ := ih
        (fun other hother => hstored other (List.mem_cons_of_mem _ hother))
        (List.isChain_cons.mp hlinked).2 hnext
        (by rw [hlookup]; exact halong)
        (by rw [hreached.ip]; exact fun ip hip => hplain ip (List.mem_cons_of_mem _ hip))
        (by rw [hreached.ip, hreached.cfa]; exact hmoves.2) hfpNext
      exact ⟨next.cursor :: cursors, after, climb_succ hstep hclimb, .cons hreached hcursors⟩

/-- The rows of a chain's lookups describe its records. -/
def DescribedAlong (target : Target) (procs : UInt64 → Except UnwindError ProcInfo)
    (fpReg : Column) : UInt64 → List FrameRecord → Prop
  | _, [] => True
  | lookup, record :: rest =>
      ∃ row, Described target procs fpReg lookup row ∧
        DescribedAlong target procs fpReg
          (if row.signalFrame then record.ra else record.ra - 1) rest

theorem leadsAlong_of_described (harch : target.arch.KeepsRecords fpReg)
    {records : List FrameRecord} (hstored : ∀ record ∈ records, record.InMemory target)
    {lookup : UInt64} (h : DescribedAlong target procs fpReg lookup records) :
    LeadsAlong target procs fpReg lookup records := by
  induction records generalizing lookup with
  | nil => trivial
  | cons record rest ih =>
      obtain ⟨row, hrow, hrest⟩ := h
      exact ⟨row.signalFrame,
        leads_of_described harch (hstored record List.mem_cons_self) hrow,
        ih (fun other hother => hstored other (List.mem_cons_of_mem _ hother)) hrest⟩

theorem leadsAlong_of_undescribed (harch : target.arch.KeepsRecords fpReg)
    {records : List FrameRecord} (hstored : ∀ record ∈ records, record.InMemory target)
    (h : ∀ ip, Undescribed procs ip) (lookup : UInt64) :
    LeadsAlong target procs fpReg lookup records := by
  induction records generalizing lookup with
  | nil => trivial
  | cons record rest ih =>
      exact ⟨false, leads_of_undescribed harch (hstored record List.mem_cons_self) (h lookup),
        ih (fun other hother => hstored other (List.mem_cons_of_mem _ hother)) _⟩

/-! ## Two walks -/

/-- A program at rest has a chain of records in memory, and a cursor of the
thread begins below it. -/
structure Begins (space : AddressSpace World Thread) (thread : Thread) (world : World)
    (target : Target) (procs : UInt64 → Except UnwindError ProcInfo) (fpReg : Column)
    (records : List FrameRecord) (cursor : Cursor Thread) : Prop where
  rest : space.AtRest thread world target procs
  made : Cursor.make space world thread = .ok cursor
  first : ∀ record ∈ records.head?, space.loadReg world thread fpReg = .ok record.fp
  stored : ∀ record ∈ records, record.InMemory target
  linked : records.IsChain fun record next => target.readWord record.fp = .ok next.fp
  plain : ∀ ip ∈ cursor.ip :: records.map (·.ra), target.Plain ip
  moves : ((cursor.ip, cursor.cfa) ::
    records.map fun record => (record.ra, record.cfa target.arch)).IsChain (· ≠ ·)

theorem make_eq_ok {cursor : Cursor Thread} (h : Cursor.make space world thread = .ok cursor) :
    cursor.thread = thread ∧ cursor.validate = false ∧ cursor.lookupIp = cursor.ip ∧
      cursor.locs = Locations.live space.arch := by
  obtain ⟨ip, -, h⟩ := bind_eq_ok_iff.mp h
  obtain ⟨cfa, -, h⟩ := bind_eq_ok_iff.mp h
  obtain rfl := Except.ok.inj h
  exact ⟨rfl, rfl, rfl, rfl⟩

theorem climb_of_begins {records : List FrameRecord} {cursor : Cursor Thread}
    (hbegins : Begins space thread world target procs fpReg records cursor)
    (harch : target.arch.KeepsRecords fpReg)
    (hleads : LeadsAlong target procs fpReg cursor.ip records) (config : CacheConfig) :
    ∃ cursors after,
      climb space records.length ⟨Unwinder.make config, world, cursor⟩ =
        .ok (.ok true, cursors) after ∧
      List.Forall₂ (·.Reached target.arch fpReg) records cursors := by
  obtain ⟨hthread, hvalidate, hlookup, hlocs⟩ := make_eq_ok hbegins.made
  have htarget := hbegins.rest.target_eq .refl
  have hspace : space.arch = target.arch := by rw [← htarget]; rfl
  have hwalk : Resting space thread world target procs ⟨Unwinder.make config, world, cursor⟩ :=
    ⟨hthread, hvalidate, .refl, rfl, Unwinder.trusted_make config _⟩
  have hfp : ∀ record ∈ records.head?,
      (cursor.locs.of fpReg).read target fpReg = .ok record.fp := by
    intro record hrecord
    rw [hlocs, hspace, Locations.of_live harch.fp_lt harch.fp_lt_numRegs, ← htarget]
    exact hbegins.first record hrecord
  exact climb_of_leadsAlong hbegins.rest harch hbegins.stored hbegins.linked hwalk
    (by rw [hlookup]; exact hleads) hbegins.plain hbegins.moves hfp

theorem map_of_reached {arch : Arch} {records : List FrameRecord} {cursors : List (Cursor Thread)}
    (h : List.Forall₂ (·.Reached arch fpReg) records cursors) :
    cursors.map (fun cursor => (cursor.ip, cursor.cfa)) =
      records.map fun record => (record.ra, record.fp + 2 * arch.wordSize) := by
  induction h with
  | nil => rfl
  | cons hreached _ ih => simp [hreached.ip, hreached.cfa, FrameRecord.cfa, ih]

theorem locations_of_reached {Thread' : Type} {arch : Arch} {records : List FrameRecord}
    {cursors : List (Cursor Thread)} {cursors' : List (Cursor Thread')}
    (h : List.Forall₂ (·.Reached arch fpReg) records cursors)
    (h' : List.Forall₂ (·.Reached arch fpReg) records cursors') :
    List.Forall₂ (fun cursor cursor' => ∀ column ∈ [fpReg, arch.returnAddress, arch.sp],
      cursor.locs.of column = cursor'.locs.of column) cursors cursors' := by
  induction h generalizing cursors' with
  | nil =>
      cases h'
      exact .nil
  | cons hreached _ ih =>
      cases h' with
      | cons hreached' hrest' =>
          refine .cons ?_ (ih hrest')
          simp [hreached.fpLocation, hreached'.fpLocation, hreached.raLocation,
            hreached'.raLocation, hreached.spLocation, hreached'.spLocation]

/-- Along a chain of records of any length, the walk by frame pointers and the
walk by rows that describe the records find the same frames. -/
theorem climb_records {arch : Arch} (hshipped : arch ∈ Arch.shipped) {fpReg : Column}
    (hfpReg : arch.fp = some fpReg) {World' Thread' : Type} {records : List FrameRecord}
    {bare : AddressSpace World Thread} {thread : Thread} {world : World} {target : Target}
    {procs : UInt64 → Except UnwindError ProcInfo} {cursor : Cursor Thread}
    (hbare : Begins bare thread world target procs fpReg records cursor)
    (hbareArch : target.arch = arch) (hnone : ∀ ip, Undescribed procs ip)
    {described : AddressSpace World' Thread'} {thread' : Thread'} {world' : World'}
    {target' : Target} {procs' : UInt64 → Except UnwindError ProcInfo} {cursor' : Cursor Thread'}
    (hdescribed : Begins described thread' world' target' procs' fpReg records cursor')
    (hdescribedArch : target'.arch = arch)
    (hrows : DescribedAlong target' procs' fpReg cursor'.ip records)
    (config config' : CacheConfig) :
    ∃ cursors cursors' after after',
      climb bare records.length ⟨Unwinder.make config, world, cursor⟩ =
        .ok (.ok true, cursors) after ∧
      climb described records.length ⟨Unwinder.make config', world', cursor'⟩ =
        .ok (.ok true, cursors') after' ∧
      cursors.map (fun cursor => (cursor.ip, cursor.cfa)) =
        records.map (fun record => (record.ra, record.fp + 2 * arch.wordSize)) ∧
      cursors'.map (fun cursor => (cursor.ip, cursor.cfa)) =
        records.map (fun record => (record.ra, record.fp + 2 * arch.wordSize)) ∧
      List.Forall₂ (fun cursor cursor' => ∀ column ∈ [fpReg, arch.returnAddress, arch.sp],
        cursor.locs.of column = cursor'.locs.of column) cursors cursors' := by
  have hkeeps := Arch.keepsRecords_of_shipped hshipped hfpReg
  subst hbareArch
  have hkeeps' : target'.arch.KeepsRecords fpReg := by rw [hdescribedArch]; exact hkeeps
  obtain ⟨cursors, after, hclimb, hreached⟩ := climb_of_begins hbare hkeeps
    (leadsAlong_of_undescribed hkeeps hbare.stored hnone _) config
  obtain ⟨cursors', after', hclimb', hreached'⟩ := climb_of_begins hdescribed hkeeps'
    (leadsAlong_of_described hkeeps' hdescribed.stored hrows) config'
  rw [hdescribedArch] at hreached'
  exact ⟨cursors, cursors', after, after', hclimb, hclimb', map_of_reached hreached,
    map_of_reached hreached', locations_of_reached hreached hreached'⟩

/-! ## Two records -/

/-- A CIE whose program describes a record, an FDE of a function, and two
records of calls within it, in 32-bit words. -/
def describedCode : List UInt64 :=
  [0x10, 0, 0x7c010001, 0x08050c08, 0x01880285,
    0x0c, 0x18, 0x2000, 0x1000,
    0x102c, 0x2010, 0, 0x2020]

def twoRecords : List FrameRecord :=
  [⟨0x1024, 0x2010⟩, ⟨0x102c, 0x2020⟩]

def describedTarget : Target where
  arch := .x86
  loadWord addr :=
    match describedCode[((addr - 0x1000) / 4).toNat]? with
    | some word => .ok word
    | none => .error (.unreadable addr)
  loadReg
    | 8 => .ok 0x2004
    | _ => .ok 0x1024
  loadFpReg reg := .error (.badRegister (UInt64.ofNat reg))

def describedFde : Cfi.Fde where
  address := 0x1014
  cie := {
    address := 0x1000
    version := 1
    augmentation := .none
    codeAlign := 1
    dataAlign := -4
    returnAddress := 8
    program := ⟨0x100d, 0x1014⟩ }
  start := 0x2000
  stop := 0x3000
  lsda := 0
  program := ⟨0x1024, 0x1024⟩

def describedInfo : ProcInfo where
  start := 0x2000
  stop := 0x3000
  unwindInfo := .dwarf 0x1014 .ehFrame

/-- The space of the records, its lookups answered by `procs`. -/
def describedSpace (procs : UInt64 → Except UnwindError ProcInfo) : AddressSpace Unit Unit where
  arch := .x86
  loadWord _ _ := describedTarget.loadWord
  storeWord _ addr _ := throw (.unreadable addr)
  loadReg _ _ := describedTarget.loadReg
  storeReg _ reg _ := throw (.badRegister (UInt64.ofNat reg))
  loadFpReg _ _ := describedTarget.loadFpReg
  storeFpReg _ reg _ := throw (.badRegister (UInt64.ofNat reg))
  findProc _ _ ip := ⟨procs ip, (), 0⟩
  releaseProc _ _ _ := ()
  procName _ _ ip _ := .error (.noInfo ip)
  probe _ _ _ := .ok ()

theorem describedFde_instructions :
    describedFde.cie.instructions describedTarget describedInfo.pointerBases
        describedFde.cie.program =
      [.ok (.defCfa 5 8), .ok (.offset .packed 5 2), .ok (.offset .packed 8 1)] := by
  have hopcode : describedTarget.readU8 0x100d = .ok 0x0c 0x100e := rfl
  have hcfa : Cfi.decode describedTarget ⟨⟨0⟩, describedInfo.pointerBases, 0x1014⟩ 0x100d =
      .ok (.defCfa 5 8) 0x1010 := by
    rw [Cfi.decode, Action.bind_eq_of_ok hopcode]
    cbv
  have hfp : Cfi.decode describedTarget ⟨⟨0⟩, describedInfo.pointerBases, 0x1014⟩ 0x1010 =
      .ok (.offset .packed 5 2) 0x1012 := by cbv
  have hra : Cfi.decode describedTarget ⟨⟨0⟩, describedInfo.pointerBases, 0x1014⟩ 0x1012 =
      .ok (.offset .packed 8 1) 0x1014 := by cbv
  change Cfi.listing describedTarget ⟨⟨0⟩, describedInfo.pointerBases, 0x1014⟩ 0x100d = _
  simp [Cfi.listing_eq, hcfa, hfp, hra]

theorem describedFde_describes {ip : UInt64} (h : describedInfo.contains ip = true) :
    ∃ row, row.signalFrame = false ∧
      Described describedTarget (fun _ => .ok describedInfo) 5 ip row := by
  have hempty : describedFde.cie.instructions describedTarget describedInfo.pointerBases
      describedFde.program = [] := by
    change Cfi.listing describedTarget ⟨⟨0⟩, describedInfo.pointerBases, 0x1024⟩ 0x1024 = _
    simp [Cfi.listing_eq]
  have hrow : ∃ row, (Cfi.rowAt describedTarget .empty describedFde ip
        describedInfo.pointerBases).1 = .ok row ∧ row.signalFrame = false ∧
      row.current = Arch.x86.recordTable 5 ∧ row.returnAddress = 8 ∧ row.raSigned = false := by
    unfold Cfi.rowAt Cfi.runEntry Cfi.Cie.runProgram
    rw [describedFde_instructions, hempty]
    exact ⟨_, rfl, rfl, rfl, rfl, rfl⟩
  have hparse : Cfi.parseFde describedTarget 0x1014 .ehFrame describedInfo.pointerBases =
      .ok describedFde := by cbv
  obtain ⟨row, hrow, hordinary, htable, hra, hunsigned⟩ := hrow
  refine ⟨row, hordinary, ?_, htable, hra, hunsigned⟩
  exact ⟨describedInfo, 0x1014, .ehFrame, describedFde, rfl, h, rfl, hparse, h, hrow⟩

/-- The innermost frame of a thread in the space of the records. -/
def belowTwoRecords : Cursor Unit where
  thread := ()
  ip := 0x2004
  cfa := 0x1024
  locs := Locations.live .x86
  procInfo := none
  usePrevious := false
  lastStep := none
  validate := false
  predicates := {}
  hint := none
  workspace := .empty

theorem twoRecords_begin (procs : UInt64 → Except UnwindError ProcInfo) :
    Begins (describedSpace procs) () () describedTarget procs 5 twoRecords belowTwoRecords where
  rest := ⟨fun _ => rfl, fun _ _ => rfl⟩
  made := rfl
  first := by
    intro record hrecord
    obtain rfl := Option.some.inj hrecord
    rfl
  stored := by
    intro record hrecord
    simp only [twoRecords, List.mem_cons, List.not_mem_nil, or_false] at hrecord
    rcases hrecord with rfl | rfl
    · exact ⟨by decide, by decide, by decide, rfl, by decide, by decide⟩
    · exact ⟨by decide, by decide, by decide, rfl, by decide, by decide⟩
  linked := .cons_cons rfl (.singleton _)
  plain := fun _ _ => ⟨rfl, rfl⟩
  moves := by decide

theorem climb_twoRecords :
    ∃ cursors cursors' after after',
      climb (describedSpace fun ip => .error (.noInfo ip)) 2
          ⟨Unwinder.make {}, (), belowTwoRecords⟩ = .ok (.ok true, cursors) after ∧
        climb (describedSpace fun _ => .ok describedInfo) 2
          ⟨Unwinder.make {}, (), belowTwoRecords⟩ = .ok (.ok true, cursors') after' ∧
        cursors.map (fun cursor => (cursor.ip, cursor.cfa)) =
          [(0x2010, 0x102c), (0x2020, 0x1034)] ∧
        cursors'.map (fun cursor => (cursor.ip, cursor.cfa)) =
          [(0x2010, 0x102c), (0x2020, 0x1034)] ∧
        List.Forall₂ (fun cursor cursor' => ∀ column ∈ [5, 8, 4],
          cursor.locs.of column = cursor'.locs.of column) cursors cursors' := by
  have hrows : DescribedAlong describedTarget (fun _ => .ok describedInfo) 5
      belowTwoRecords.ip twoRecords := by
    obtain ⟨inner, hinner, hlower⟩ :=
      describedFde_describes (show describedInfo.contains 0x2004 = true by decide)
    obtain ⟨outer, -, hupper⟩ :=
      describedFde_describes (show describedInfo.contains 0x200f = true by decide)
    exact ⟨inner, hlower, outer, by rw [hinner]; exact hupper, trivial⟩
  have hshipped : Arch.x86 ∈ Arch.shipped := by decide
  exact climb_records hshipped rfl (twoRecords_begin _) rfl (fun _ => .inl rfl)
    (twoRecords_begin _) rfl hrows {} {}

end Walk
end StackWalk
