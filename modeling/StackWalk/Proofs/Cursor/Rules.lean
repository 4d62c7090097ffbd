import StackWalk.Proofs.Cfi.MemoryOnly
import StackWalk.Proofs.Cursor.Searching

/-!
# The rules of an address

Where memory and procedures are the same for all threads and change only with
an epoch, the rules of an address are a function of the registered regions, the
epoch and the key.  Computing them afresh gives what this function says,
whatever the workspace holds, and a lookup that misses keeps nothing else.
-/

namespace StackWalk

variable {World Thread Epoch : Type}

/-- Memory, registers and procedures answer as the epoch of the world says.
Memory and procedures are the same for all threads, every address can be
probed, and looking procedures up begins no new epoch. -/
structure AddressSpace.AnswersBy (space : AddressSpace World Thread) (epoch : World → Epoch) :
    Prop where
  loadWord : ∀ {first second : World} (thread other : Thread) (addr : UInt64),
    epoch first = epoch second →
      space.loadWord first thread addr = space.loadWord second other addr
  loadReg : ∀ {first second : World} (thread : Thread) (reg : Column),
    epoch first = epoch second →
      space.loadReg first thread reg = space.loadReg second thread reg
  loadFpReg : ∀ {first second : World} (thread : Thread) (reg : Column),
    epoch first = epoch second →
      space.loadFpReg first thread reg = space.loadFpReg second thread reg
  procedure : ∀ {first second : World} (thread other : Thread) (ip : UInt64),
    epoch first = epoch second →
      (space.findProc first thread ip).answer = (space.findProc second other ip).answer
  probe : ∀ world thread addr, space.probe world thread addr = .ok ()
  findProc : ∀ world thread ip, epoch (space.findProc world thread ip).world = epoch world
  releaseProc : ∀ world thread info, epoch (space.releaseProc world thread info) = epoch world

attribute [ext] Target

namespace Walk

variable {space : AddressSpace World Thread} {epoch : World → Epoch}

/-! ## Targets of one epoch -/

theorem loadWord_target (h : space.AnswersBy epoch) (world : World) (thread : Thread)
    (validate : Bool) :
    (space.target world thread validate).loadWord = space.loadWord world thread := by
  funext addr
  cases validate with
  | false => rfl
  | true =>
      change (space.probe world thread addr >>= fun _ => space.loadWord world thread addr) = _
      rw [h.probe]
      rfl

/-- Two threads see the same memory while the epoch lasts. -/
theorem memory_eq (h : space.AnswersBy epoch) {first second : World}
    (hepoch : epoch first = epoch second) (thread other : Thread) (validate validate' : Bool) :
    (space.target first thread validate).loadWord =
      (space.target second other validate').loadWord := by
  rw [loadWord_target h, loadWord_target h]
  funext addr
  exact h.loadWord thread other addr hepoch

theorem target_eq (h : space.AnswersBy epoch) {first second : World}
    (hepoch : epoch first = epoch second) (thread : Thread) (validate : Bool) :
    space.target first thread validate = space.target second thread validate := by
  apply Target.ext
  · rfl
  · exact memory_eq h hepoch thread thread validate validate
  · funext reg
    exact h.loadReg thread reg hepoch
  · funext reg
    exact h.loadFpReg thread reg hepoch

theorem target_eq_withRegisters (h : space.AnswersBy epoch) {first second : World}
    (hepoch : epoch first = epoch second) (thread other : Thread) (validate validate' : Bool) :
    space.target second other validate' =
      (space.target first thread validate).withRegisters (space.loadReg second other)
        (space.loadFpReg second other) := by
  apply Target.ext
  · rfl
  · exact (memory_eq h hepoch thread other validate validate').symm
  · rfl
  · rfl

/-! ## Rows -/

theorem region_rowAt_answer (arch : Arch) (ws : Workspace) (region : Region) (ip : UInt64)
    (predicates : Predicates) :
    (region.rowAt arch ws ip predicates).1 = (region.rowAt arch .empty ip predicates).1 := by
  unfold Region.rowAt
  by_cases hip : region.contains ip = true
  · rw [if_pos hip, if_pos hip]
    cases arch.checkColumn region.returnAddress <;> rfl
  · rw [if_neg hip, if_neg hip]

/-- Neither the registers nor what is in the workspace is seen in a row. -/
theorem rowIn_answer (target : Target) (loadReg : Column → Except UnwindError UInt64)
    (loadFpReg : Column → Except UnwindError FpImage) (ws : Workspace) (info : ProcInfo)
    (ip : UInt64) (predicates : Predicates) :
    (rowIn (target.withRegisters loadReg loadFpReg) ws info ip predicates).1 =
      (rowIn target .empty info ip predicates).1 := by
  unfold rowIn
  cases info.unwindInfo with
  | absent => rfl
  | dynamic region => exact region_rowAt_answer target.arch ws region ip predicates
  | dwarf fde frameSection =>
      simp only [Cfi.parseFde_withRegisters]
      cases Cfi.parseFde target fde frameSection info.pointerBases with
      | error e => rfl
      | ok fde =>
          simp only [Cfi.rowAt_withRegisters]
          by_cases hip : fde.contains ip = true
          · rw [if_pos hip, if_pos hip]
            rfl
          · rw [if_neg hip, if_neg hip]

/-! ## The rules of an address as a function -/

/-- The procedure that holds an address, registered regions first. -/
def procFor (space : AddressSpace World Thread) (registry : Registry) (world : World)
    (thread : Thread) (ip : UInt64) : Except UnwindError ProcInfo :=
  match registry.find? ip with
  | some region =>
      return .ofRegion region
  | none => do
      let info ← (space.findProc world thread ip).answer
      if info.contains ip then
        return info
      else
        throw (.noInfo ip)

/-- The rules of a key and its procedure. -/
def rulesFor (space : AddressSpace World Thread) (registry : Registry) (world : World)
    (thread : Thread) (key : CacheKey) : Except UnwindError (Script × ProcInfo) := do
  let info ← procFor space registry world thread key.ip
  let row ← (rowIn (space.target world thread false) .empty info key.ip key.predicates).1
  return (row.toScript, info)

theorem rulesFor_eq (h : space.AnswersBy epoch) (registry : Registry) {first second : World}
    (hepoch : epoch first = epoch second) (thread other : Thread) (key : CacheKey) :
    rulesFor space registry first thread key = rulesFor space registry second other key := by
  have hproc : procFor space registry first thread key.ip =
      procFor space registry second other key.ip := by
    unfold procFor
    rw [h.procedure thread other key.ip hepoch]
  unfold rulesFor
  rw [hproc, target_eq_withRegisters h hepoch thread other false false]
  simp only [rowIn_answer]

/-! ## Finding the procedure -/

theorem findProc_of_region {walk : Walk World Thread} {ip : UInt64} {region : Region}
    (h : walk.unwinder.registry.find? ip = some region) :
    findProc space ip walk = .ok (.ofRegion region, false) walk := by
  unfold findProc
  simp only [Action.get_bind_apply, h, Action.pure_apply]

/-- The walk after the address space was asked for a procedure. -/
def asked (space : AddressSpace World Thread) (walk : Walk World Thread) (ip : UInt64) :
    Walk World Thread :=
  { walk with
    world := (space.findProc walk.world walk.cursor.thread ip).world
    unwinder := walk.unwinder.bumpTimes
      (space.findProc walk.world walk.cursor.thread ip).changes }

theorem findProc_of_no_region {walk : Walk World Thread} {ip : UInt64}
    (h : walk.unwinder.registry.find? ip = none) :
    findProc space ip walk =
      match (space.findProc walk.world walk.cursor.thread ip).answer with
      | .error e => .error e (asked space walk ip)
      | .ok info =>
          if info.contains ip then
            .ok (info, true) (asked space walk ip)
          else
            .error (.noInfo ip)
              { asked space walk ip with
                world := space.releaseProc (asked space walk ip).world walk.cursor.thread info } := by
  have hasked : findInSpace space ip walk =
      match (space.findProc walk.world walk.cursor.thread ip).answer with
      | .error e => .error e (asked space walk ip)
      | .ok info => .ok info (asked space walk ip) := by
    unfold findInSpace asked
    rw [Action.get_bind_apply, Action.set_bind_apply]
    cases (space.findProc walk.world walk.cursor.thread ip).answer <;> rfl
  unfold findProc
  simp only [Action.get_bind_apply, h]
  rw [Action.bind_apply, hasked]
  cases (space.findProc walk.world walk.cursor.thread ip).answer with
  | error e => rfl
  | ok info =>
      dsimp only
      split <;> rfl

/-- Finding a procedure answers what `procFor` says and leaves the cache
alone. -/
theorem findProc_outcome (space : AddressSpace World Thread) (walk : Walk World Thread)
    (ip : UInt64) :
    ((findProc space ip).perform walk).1.map Prod.fst =
        procFor space walk.unwinder.registry walk.world walk.cursor.thread ip ∧
      ((findProc space ip).perform walk).2.unwinder.cache = walk.unwinder.cache := by
  unfold Action.perform procFor
  cases hregion : walk.unwinder.registry.find? ip with
  | some region =>
      rw [findProc_of_region hregion]
      exact ⟨rfl, rfl⟩
  | none =>
      rw [findProc_of_no_region hregion]
      cases (space.findProc walk.world walk.cursor.thread ip).answer with
      | error e => exact ⟨rfl, rfl⟩
      | ok info =>
          cases hip : info.contains ip with
          | true => simp [hip, asked, Unwinder.bumpTimes, Except.map]
          | false => simp [hip, asked, Unwinder.bumpTimes, Except.map]

theorem procFor_of_found {walk found : Walk World Thread} {ip : UInt64} {info : ProcInfo}
    {provided : Bool}
    (h : findProc space ip walk = .ok (info, provided) found) :
    procFor space walk.unwinder.registry walk.world walk.cursor.thread ip = .ok info := by
  have hanswer := (findProc_outcome space walk ip).1
  unfold Action.perform at hanswer
  rw [h] at hanswer
  exact hanswer.symm

/-! ## Fresh rules -/

/-- The walk once a row was built and its procedure given back. -/
def rowBuilt (space : AddressSpace World Thread) (found : Walk World Thread) (info : ProcInfo)
    (provided : Bool) (ip : UInt64) : Walk World Thread :=
  let built := { found with
    cursor := { found.cursor with
      workspace := (rowIn (found.target space) found.cursor.workspace info ip
        found.cursor.predicates).2 } }
  if provided then
    { built with world := space.releaseProc built.world built.cursor.thread info }
  else
    built

theorem freshRules_of_found {walk found : Walk World Thread} {generation : UInt64}
    {key : CacheKey} {info : ProcInfo} {provided : Bool}
    (h : findProc space key.ip walk = .ok (info, provided) found) :
    freshRules space generation key walk =
      keepRules generation key info
        (rowIn (found.target space) found.cursor.workspace info key.ip
          found.cursor.predicates).1
        (rowBuilt space found info provided key.ip) := by
  have hbuilt : buildRow space info key.ip found =
      .ok (rowIn (found.target space) found.cursor.workspace info key.ip
        found.cursor.predicates).1 (rowBuilt space found info false key.ip) := rfl
  rw [freshRules_eq, Action.bind_eq_of_ok h]
  dsimp only
  rw [Action.bind_eq_of_ok hbuilt]
  cases provided <;> rfl

theorem epoch_eq_of_consults
    (hfind : ∀ world thread ip, epoch (space.findProc world thread ip).world = epoch world)
    (hrelease : ∀ world thread info, epoch (space.releaseProc world thread info) = epoch world)
    {thread : Thread} {first last : World}
    (hworld : Relation.ReflTransGen (space.Consults thread) first last) :
    epoch last = epoch first := by
  induction hworld with
  | refl => rfl
  | tail _ hlast ih =>
      cases hlast with
      | find ip => rw [hfind, ih]
      | release info => rw [hrelease, ih]

theorem Searched.epoch_eq (h : space.AnswersBy epoch) {before after : Walk World Thread}
    (hsearched : Searched space before after) : epoch after.world = epoch before.world :=
  epoch_eq_of_consults h.findProc h.releaseProc hsearched.world

/-- Whatever the thread asks for, rows come out as they would now. -/
def RowsSettled (space : AddressSpace World Thread) (walk : Walk World Thread) : Prop :=
  ∀ {world : World}, Relation.ReflTransGen (space.Consults walk.cursor.thread) walk.world world →
    ∀ ws info ip predicates,
      (rowIn (space.target world walk.cursor.thread walk.cursor.validate) ws info ip
          predicates).1 =
        (rowIn (space.target walk.world walk.cursor.thread false) .empty info ip predicates).1

/-- Once a procedure is found, the row that is built for it is that of the
beginning. -/
theorem row_of_searched {walk found : Walk World Thread} (hsettled : RowsSettled space walk)
    (hsearched : Searched space walk found) (info : ProcInfo) (ip : UInt64) :
    (rowIn (found.target space) found.cursor.workspace info ip found.cursor.predicates).1 =
      (rowIn (space.target walk.world walk.cursor.thread false) .empty info ip
        walk.cursor.predicates).1 := by
  obtain ⟨hint, workspace, hcursor⟩ := hsearched.cursor
  unfold Walk.target
  rw [hcursor]
  exact hsettled hsearched.world _ _ _ _

theorem cache_storeScript {unwinder : Unwinder} {generation : UInt64} {key : CacheKey}
    {script : Script} {info : ProcInfo} {cache : ScriptCache}
    (h : (unwinder.storeScript generation key script info).2.cache = some cache) :
    unwinder.cache = some cache ∨ ∃ before, unwinder.cache = some before ∧
      cache = ((before.sync generation).insert key script info).2 := by
  unfold Unwinder.storeScript at h
  split at h
  · cases hcache : unwinder.cache with
    | none =>
        rw [hcache] at h
        exact Or.inl (hcache.symm.trans h)
    | some before =>
        rw [hcache] at h
        exact Or.inr ⟨before, rfl, (Option.some.inj h).symm⟩
  · exact Or.inl h

theorem rowsSettled_of_answersBy (h : space.AnswersBy epoch) (walk : Walk World Thread) :
    RowsSettled space walk := by
  intro world hworld ws info ip predicates
  have hepoch := epoch_eq_of_consults h.findProc h.releaseProc hworld
  rw [target_eq_withRegisters h hepoch.symm walk.cursor.thread walk.cursor.thread false]
  exact rowIn_answer _ _ _ _ _ _ _

theorem keepRules_answer (generation : UInt64) (key : CacheKey) (info : ProcInfo)
    (row : Except UnwindError Row) (walk : Walk World Thread) :
    ((keepRules generation key info row).perform walk).1 =
      row.map fun row => (row.toScript, info) := by
  unfold Action.perform
  cases row with
  | error e => rfl
  | ok row =>
      cases hscript : Script.compile row with
      | none =>
          rw [keepRules_of_none hscript]
          rfl
      | some script =>
          rw [keepRules_of_some hscript]
          obtain rfl := Script.eq_toScript_of_compile hscript
          rfl

/-- Fresh rules are those of the key. -/
theorem freshRules_answer {walk : Walk World Thread} (hsettled : RowsSettled space walk)
    (generation : UInt64) (key : CacheKey) (hkey : key.predicates = walk.cursor.predicates) :
    ((freshRules space generation key).perform walk).1 =
      rulesFor space walk.unwinder.registry walk.world walk.cursor.thread key := by
  have hfind := (findProc_outcome space walk key.ip).1
  have hsearched : Searched space walk ((findProc space key.ip).perform walk).2 :=
    findProc_searched key.ip walk
  unfold rulesFor
  rw [← hfind]
  unfold Action.perform at hsearched ⊢
  cases hrun : findProc space key.ip walk with
  | error e found =>
      rw [freshRules_eq, Action.bind_eq_of_error hrun]
      rfl
  | ok answer found =>
      obtain ⟨info, provided⟩ := answer
      rw [hrun] at hsearched
      have hkept := keepRules_answer generation key info
        (rowIn (space.target walk.world walk.cursor.thread false) .empty info key.ip
          walk.cursor.predicates).1 (rowBuilt space found info provided key.ip)
      unfold Action.perform at hkept
      rw [freshRules_of_found hrun, row_of_searched hsettled hsearched, hkept, hkey]
      rfl

/-- Fresh rules are the script of a row that was built for the procedure of
their address. -/
theorem freshRules_eq_ok {walk : Walk World Thread} {generation : UInt64} {key : CacheKey}
    {script : Script} {info : ProcInfo}
    (h : ((freshRules space generation key).perform walk).1 = .ok (script, info)) :
    procFor space walk.unwinder.registry walk.world walk.cursor.thread key.ip = .ok info ∧
      ∃ target ws predicates row, target.arch = space.arch ∧
        (rowIn target ws info key.ip predicates).1 = .ok row ∧ script = row.toScript := by
  unfold Action.perform at h
  cases hrun : findProc space key.ip walk with
  | error e found =>
      rw [freshRules_eq, Action.bind_eq_of_error hrun] at h
      cases h
  | ok answer found =>
      obtain ⟨proc, provided⟩ := answer
      have hkept := keepRules_answer generation key proc
        (rowIn (found.target space) found.cursor.workspace proc key.ip
          found.cursor.predicates).1 (rowBuilt space found proc provided key.ip)
      unfold Action.perform at hkept
      rw [freshRules_of_found hrun, hkept] at h
      obtain ⟨row, hrow, hscript⟩ := map_eq_ok_iff.mp h
      cases hscript
      exact ⟨procFor_of_found hrun, _, _, _, row, rfl, hrow, rfl⟩

/-- All that the cache keeps of fresh rules, if anything, is their script. -/
theorem freshRules_kept {walk : Walk World Thread} {generation : UInt64} {key : CacheKey}
    {cache : ScriptCache}
    (h : ((freshRules space generation key).perform walk).2.unwinder.cache = some cache) :
    walk.unwinder.cache = some cache ∨
      ∃ before script info, walk.unwinder.cache = some before ∧
        ((freshRules space generation key).perform walk).1 = .ok (script, info) ∧
        cache = ((before.sync generation).insert key script info).2 := by
  have hfound := (findProc_outcome space walk key.ip).2
  unfold Action.perform at hfound h ⊢
  cases hrun : findProc space key.ip walk with
  | error e found =>
      rw [hrun] at hfound
      rw [freshRules_eq, Action.bind_eq_of_error hrun] at h
      exact Or.inl (hfound.symm.trans h)
  | ok answer found =>
      obtain ⟨info, provided⟩ := answer
      rw [hrun] at hfound
      have hcache : (rowBuilt space found info provided key.ip).unwinder.cache =
          walk.unwinder.cache := by
        rw [← hfound]
        cases provided <;> rfl
      rw [freshRules_of_found hrun] at h ⊢
      cases hrow : (rowIn (found.target space) found.cursor.workspace info key.ip
          found.cursor.predicates).1 with
      | error e =>
          rw [hrow] at h
          exact Or.inl (hcache.symm.trans h)
      | ok row =>
          rw [hrow] at h
          cases hscript : Script.compile row with
          | none =>
              rw [keepRules_of_none hscript] at h
              exact Or.inl (hcache.symm.trans h)
          | some script =>
              rw [keepRules_of_some hscript] at h ⊢
              rcases cache_storeScript h with h | ⟨before, hbefore, hafter⟩
              · exact Or.inl (hcache.symm.trans h)
              · exact Or.inr ⟨before, script, info, hcache.symm.trans hbefore, rfl, hafter⟩

end Walk
end StackWalk
