import StackWalk.Proofs.Cursor.KeptProcedure
import StackWalk.Proofs.Session.Generations

/-!
# The procedures that cursors tell

When the unwind information changes, the rules of a frame are no longer taken
from the cache, but a cursor goes on telling the procedure it has kept.  A step
goes by the procedure of now all the same.  What cursors tell is up to date in
a whole run exactly if no change concerns a frame that was asked about.
-/

namespace StackWalk
namespace Session

variable {World Thread Epoch : Type}

/-- What can happen to a session whose cursors are asked for procedures. -/
inductive Event (World Thread : Type) where
  | request (request : Request World Thread)
  | setReg (index : Nat) (reg : Column) (value : UInt64)
  | procInfo (index : Nat)

/-- The event may change the unwind information. -/
def Event.Renews : Event World Thread → Prop
  | .request (.registerRegion _) => True
  | .request (.unregisterRegion _) => True
  | .request (.bumpGeneration _) => True
  | _ => False

def after (space : AddressSpace World Thread) (session : Session World Thread) :
    Event World Thread → Session World Thread
  | .request request => ((serve space request).perform session).2
  | .setReg index reg value => ((onCursor index (Walk.setReg space reg value)).perform session).2
  | .procInfo index => ((onCursor index (Walk.procInfo space)).perform session).2

/-- What a lookup for the cursor's frame finds now. -/
def procOf (space : AddressSpace World Thread) (session : Session World Thread)
    (cursor : Cursor Thread) : Except UnwindError ProcInfo :=
  ((Walk.findProc space cursor.lookupIp).perform
    ⟨session.unwinder, session.world, cursor⟩).1.map Prod.fst

/-- What the cursor answers now when it is asked for its procedure. -/
def procTold (space : AddressSpace World Thread) (session : Session World Thread)
    (cursor : Cursor Thread) : Except UnwindError ProcInfo :=
  ((Walk.procInfo space).perform ⟨session.unwinder, session.world, cursor⟩).1

/-- In the run the generation does not come round. -/
def Advances (space : AddressSpace World Thread) (session : Session World Thread) :
    List (Event World Thread) → Prop
  | [] => True
  | event :: rest =>
      session.unwinder.generation ≤ (session.after space event).unwinder.generation ∧
        (session.after space event).Advances space rest

/-- Whenever the unwind information may change in the run, it stays the same for
the frames of the cursors that keep a procedure. -/
def Spares (space : AddressSpace World Thread) (session : Session World Thread) :
    List (Event World Thread) → Prop
  | [] => True
  | event :: rest =>
      (event.Renews → ∀ cursor ∈ session.cursors, cursor.procInfo ≠ none →
        (session.after space event).procOf space cursor = session.procOf space cursor) ∧
      (session.after space event).Spares space rest

variable {space : AddressSpace World Thread} {epoch : World → Epoch}
  {session later : Session World Thread} {event : Event World Thread}
  {events : List (Event World Thread)}

/-! ## What is told and what is found -/

theorem procOf_eq_procFor (cursor : Cursor Thread) :
    session.procOf space cursor =
      Walk.procFor space session.unwinder.registry session.world cursor.thread cursor.lookupIp :=
  (Walk.findProc_outcome space _ _).1

theorem procTold_eq (cursor : Cursor Thread) :
    session.procTold space cursor =
      match cursor.procInfo with
      | some info => .ok info
      | none => session.procOf space cursor := by
  unfold procTold procOf Action.perform
  cases hkept : cursor.procInfo with
  | some info => rw [Walk.procInfo_of_some hkept]
  | none =>
      cases hrun : Walk.findProc space cursor.lookupIp
          ⟨session.unwinder, session.world, cursor⟩ with
      | error e found =>
          rw [Walk.procInfo_of_failed hkept hrun]
          rfl
      | ok answer found =>
          rw [Walk.procInfo_of_found hkept hrun]
          rfl

/-- Cursors at one address are in one procedure, while the regions and the epoch
are the same. -/
theorem procOf_congr (h : space.FindsBy epoch) (hepoch : epoch later.world = epoch session.world)
    (hregistry : later.unwinder.registry = session.unwinder.registry)
    {cursor other : Cursor Thread} (hip : cursor.lookupIp = other.lookupIp) :
    later.procOf space cursor = session.procOf space other := by
  rw [procOf_eq_procFor, procOf_eq_procFor, hregistry, hip]
  exact Walk.procFor_eq h _ hepoch _ _ _

/-- Every procedure that is kept is what a lookup finds. -/
def UpToDate (space : AddressSpace World Thread) (session : Session World Thread) : Prop :=
  ∀ cursor ∈ session.cursors, ∀ info, cursor.procInfo = some info →
    session.procOf space cursor = .ok info

theorem upToDate_iff : session.UpToDate space ↔
    ∀ cursor ∈ session.cursors, session.procTold space cursor = session.procOf space cursor := by
  constructor
  · intro h cursor hcursor
    rw [procTold_eq]
    cases hkept : cursor.procInfo with
    | some info => exact (h cursor hcursor info hkept).symm
    | none => rfl
  · intro h cursor hcursor info hkept
    have htold := h cursor hcursor
    rw [procTold_eq, hkept] at htold
    exact htold.symm

/-! ## Events one by one -/

theorem after_request (space : AddressSpace World Thread) (session : Session World Thread)
    (request : Request World Thread) :
    session.after space (.request request) = ((serve space request).perform session).2 :=
  rfl

/-- The epoch and the regions stay, and what a cursor keeps was kept for the
same address or is what a lookup finds. -/
structure KeepsProcs (space : AddressSpace World Thread) (epoch : World → Epoch)
    (before after : Session World Thread) : Prop where
  epoch : epoch after.world = epoch before.world
  registry : after.unwinder.registry = before.unwinder.registry
  procInfo : ∀ cursor ∈ after.cursors, ∀ info, cursor.procInfo = some info →
    (∃ old ∈ before.cursors, old.procInfo = some info ∧ cursor.lookupIp = old.lookupIp) ∨
      before.procOf space cursor = .ok info

theorem keepsProcs_of_same (hepoch : epoch later.world = epoch session.world)
    (hregistry : later.unwinder.registry = session.unwinder.registry)
    (hcursors : later.cursors = session.cursors) : KeepsProcs space epoch session later := by
  refine ⟨hepoch, hregistry, ?_⟩
  rw [hcursors]
  exact fun cursor hcursor info hkept => Or.inl ⟨cursor, hcursor, hkept, rfl⟩

theorem onCursor_keepsProcs {α : Type} {action : Action (Walk World Thread) α}
    (haction : action.Keeps (Walk.KeepsProc space epoch)) (index : Nat) :
    (onCursor index action).Keeps (KeepsProcs space epoch) := by
  intro session
  cases hcursor : session.cursors[index]? with
  | none =>
      unfold Action.perform
      rw [onCursor_of_none hcursor]
      exact keepsProcs_of_same rfl rfl rfl
  | some acting =>
      have hkeeps := haction ⟨session.unwinder, session.world, acting⟩
      rw [perform_onCursor hcursor]
      refine ⟨hkeeps.epoch, hkeeps.registry, ?_⟩
      intro cursor hmem info hkept
      rcases Array.mem_or_eq_of_mem_setIfInBounds hmem with hold | rfl
      · exact Or.inl ⟨cursor, hold, hkept, rfl⟩
      · rcases hkeeps.procInfo info hkept with ⟨hbefore, hip⟩ | hfound
        · exact Or.inl ⟨acting, Array.mem_of_getElem? hcursor, hbefore, hip⟩
        · rw [procOf_eq_procFor]
          exact Or.inr hfound

theorem openCursor_keepsProcs (thread : Thread) :
    (openCursor space thread).Keeps (KeepsProcs space epoch) := by
  intro session
  unfold Action.perform openCursor
  simp only [Action.get_bind_apply]
  cases hmake : Cursor.make space session.world thread with
  | error e => exact keepsProcs_of_same rfl rfl rfl
  | ok opened =>
      refine ⟨rfl, rfl, ?_⟩
      intro cursor hmem info hkept
      rcases Array.mem_push.mp hmem with hold | rfl
      · exact Or.inl ⟨cursor, hold, hkept, rfl⟩
      · obtain ⟨ip, -, h⟩ := bind_eq_ok_iff.mp hmake
        obtain ⟨cfa, -, h⟩ := bind_eq_ok_iff.mp h
        cases h
        cases hkept

theorem modifyCursor_keepsProc {change : Cursor Thread → Cursor Thread}
    (hchange : ∀ cursor, (change cursor).procInfo = cursor.procInfo ∧
      (change cursor).lookupIp = cursor.lookupIp) :
    (Walk.modifyCursor change : Action (Walk World Thread) Unit).Keeps
      (Walk.KeepsProc space epoch) := by
  apply Action.Keeps.of_modify
  intro walk
  obtain ⟨hsame, hip⟩ := hchange walk.cursor
  exact ⟨rfl, rfl, fun info hkept => Or.inl ⟨hsame.symm.trans hkept, hip⟩⟩

theorem after_keepsProcs (session : Session World Thread) (h : space.FindsBy epoch)
    (hrenews : ¬event.Renews) :
    KeepsProcs space epoch session (session.after space event) := by
  have hcursor : ∀ {α : Type} {action : Action (Walk World Thread) α} (f : Option α → Answer)
      (index : Nat), action.Keeps (Walk.KeepsProc space epoch) → KeepsProcs space epoch session
        ((onCursor index action >>= fun a => pure (f a)).perform session).2 := by
    intro α action f index haction
    rw [Action.perform_bind_pure]
    exact onCursor_keepsProcs haction index session
  cases event with
  | setReg index reg value =>
      exact onCursor_keepsProcs (fun walk => (Walk.setReg_stays h reg value walk).keepsProc)
        index session
  | procInfo index => exact onCursor_keepsProcs (Walk.procInfo_keepsProc h) index session
  | request request =>
      cases request with
      | openCursor thread =>
          rw [after_request, serve, Action.perform_bind_pure]
          exact openCursor_keepsProcs thread session
      | step index => exact hcursor _ index (Walk.step_keepsProc h)
      | argsSize index =>
          exact hcursor _ index fun walk => (Walk.argsSize_searched walk).keepsProc h
      | isSignalFrame index =>
          exact hcursor _ index fun walk => (Walk.isSignalFrame_searched walk).keepsProc h
      | setPredicates index predicates =>
          exact hcursor _ index (modifyCursor_keepsProc fun _ => ⟨rfl, rfl⟩)
      | setValidate index validate =>
          exact hcursor _ index (modifyCursor_keepsProc fun _ => ⟨rfl, rfl⟩)
      | registerRegion region => exact absurd trivial hrenews
      | unregisterRegion start => exact absurd trivial hrenews
      | bumpGeneration world => exact absurd trivial hrenews

/-- A change of the unwind information that comes about begins the next
generation, and no cursor notices. -/
theorem after_of_renews (space : AddressSpace World Thread) (session : Session World Thread)
    (hrenews : event.Renews) :
    session.after space event = session ∨
      ∃ registry world, session.after space event = session.renewed registry world := by
  cases event with
  | setReg index reg value => exact hrenews.elim
  | procInfo index => exact hrenews.elim
  | request request =>
      rw [after_request]
      unfold Action.perform
      cases request with
      | registerRegion region =>
          rw [serve_registerRegion]
          cases session.unwinder.registry.register region with
          | error e => exact Or.inl rfl
          | ok registered => exact Or.inr ⟨_, _, rfl⟩
      | unregisterRegion start =>
          rw [serve_unregisterRegion]
          cases session.unwinder.registry.unregister start with
          | none => exact Or.inl rfl
          | some removed => exact Or.inr ⟨_, _, rfl⟩
      | bumpGeneration world => exact Or.inr ⟨_, world, rfl⟩
      | _ => exact hrenews.elim

theorem cursors_after_of_renews (hrenews : event.Renews) :
    (session.after space event).cursors = session.cursors := by
  rcases after_of_renews space session hrenews with hsame | ⟨_, _, hnext⟩
  · rw [hsame]
  · rw [hnext]
    rfl

/-! ## Runs -/

theorem KeepsProcs.upToDate (h : space.FindsBy epoch)
    (hkeeps : KeepsProcs space epoch session later)
    (hbefore : session.UpToDate space) : later.UpToDate space := by
  intro cursor hcursor info hkept
  rcases hkeeps.procInfo cursor hcursor info hkept with ⟨old, hold, hsame, hip⟩ | hfound
  · rw [procOf_congr h hkeeps.epoch hkeeps.registry hip]
    exact hbefore old hold info hsame
  · rw [procOf_congr h hkeeps.epoch hkeeps.registry rfl]
    exact hfound

theorem upToDate_iff_spares (h : space.FindsBy epoch) (hstart : session.UpToDate space) :
    (∀ moment ∈ events.scanl (after space) session, moment.UpToDate space) ↔
      session.Spares space events := by
  induction events generalizing session with
  | nil => simpa [Spares] using hstart
  | cons event rest ih =>
      rw [List.scanl_cons]
      have hhead : session.after space event ∈
          rest.scanl (after space) (session.after space event) := by
        cases rest <;> simp
      constructor
      · intro hall
        have hrest := fun moment hmoment => hall moment (List.mem_cons_of_mem _ hmoment)
        have hnext := hrest _ hhead
        refine ⟨?_, (ih hnext).mp hrest⟩
        intro hrenews cursor hcursor hkeeps
        obtain ⟨info, hkept⟩ := Option.ne_none_iff_exists'.mp hkeeps
        rw [hstart cursor hcursor info hkept]
        refine hnext cursor ?_ info hkept
        rwa [cursors_after_of_renews hrenews]
      · rintro ⟨hspared, hspares⟩
        have hnext : (session.after space event).UpToDate space := by
          by_cases hrenews : event.Renews
          · intro cursor hcursor info hkept
            rw [cursors_after_of_renews hrenews] at hcursor
            rw [hspared hrenews cursor hcursor (by simp [hkept])]
            exact hstart cursor hcursor info hkept
          · exact (after_keepsProcs _ h hrenews).upToDate h hstart
        intro moment hmoment
        rcases List.mem_cons.mp hmoment with rfl | hmoment
        · exact hstart
        · exact (ih hnext).mpr hspares moment hmoment

/-- Every procedure that is kept was found at one of these moments. -/
def FoundIn (space : AddressSpace World Thread) (past : List (Session World Thread))
    (session : Session World Thread) : Prop :=
  ∀ cursor ∈ session.cursors, ∀ info, cursor.procInfo = some info →
    ∃ moment ∈ past, moment.procOf space cursor = .ok info

theorem FoundIn.after (h : space.FindsBy epoch) {past : List (Session World Thread)}
    (hfound : session.FoundIn space past) (event : Event World Thread) :
    (session.after space event).FoundIn space (past ++ [session]) := by
  intro cursor hcursor info hkept
  by_cases hrenews : event.Renews
  · rw [cursors_after_of_renews hrenews] at hcursor
    obtain ⟨moment, hmoment, hinfo⟩ := hfound cursor hcursor info hkept
    exact ⟨moment, List.mem_append_left _ hmoment, hinfo⟩
  · rcases (after_keepsProcs _ h hrenews).procInfo cursor hcursor info hkept with
      ⟨old, hold, hsame, hip⟩ | hnow
    · obtain ⟨moment, hmoment, hinfo⟩ := hfound old hold info hsame
      refine ⟨moment, List.mem_append_left _ hmoment, ?_⟩
      rw [procOf_congr h rfl rfl hip]
      exact hinfo
    · exact ⟨session, by simp, hnow⟩

theorem foundIn_run (h : space.FindsBy epoch) {past : List (Session World Thread)}
    (hfound : session.FoundIn space past) :
    (events.foldl (after space) session).FoundIn space
      (past ++ events.scanl (after space) session) := by
  -- on the events: what is past grows by the moment that each of them ends
  induction events generalizing past session with
  | nil =>
      intro cursor hcursor info hkept
      obtain ⟨moment, hmoment, hinfo⟩ := hfound cursor hcursor info hkept
      exact ⟨moment, List.mem_append_left _ hmoment, hinfo⟩
  | cons event rest ih =>
      have hrest := ih (hfound.after h event)
      rwa [List.append_assoc, List.singleton_append, ← List.scanl_cons] at hrest

theorem foldl_mem_scanl (session : Session World Thread) (events : List (Event World Thread)) :
    events.foldl (after space) session ∈ events.scanl (after space) session := by
  induction events generalizing session with
  | nil => simp
  | cons event rest ih =>
      rw [List.scanl_cons]
      exact List.mem_cons_of_mem _ (ih _)

/-! ## The procedure that a step goes by -/

/-- The procedure kept with a script is the one that a lookup finds. -/
def Describes (space : AddressSpace World Thread) (session : Session World Thread)
    (entry : CacheEntry) : Prop :=
  ∀ thread, Walk.procFor space session.unwinder.registry session.world thread entry.key.ip =
    .ok entry.info

structure Current (space : AddressSpace World Thread) (session : Session World Thread) : Prop where
  trusted : session.unwinder.Trusted (session.Describes space)
  behind : session.Behind

theorem Current.frameRules (h : space.FindsBy epoch) (hcurrent : session.Current space)
    (cursor : Cursor Thread) :
    let outcome := (Walk.frameRules space).perform ⟨session.unwinder, session.world, cursor⟩
    (∀ script info, outcome.1 = .ok (script, info) → session.procOf space cursor = .ok info) ∧
      outcome.2.unwinder.UsedIn session.unwinder.generation (session.Describes space) := by
  intro outcome
  have hfresh : ∀ script info,
      ((Walk.freshRules space session.unwinder.generation
        (Walk.key ⟨session.unwinder, session.world, cursor⟩)).perform
          ⟨(Walk.looked ⟨session.unwinder, session.world, cursor⟩).2, session.world, cursor⟩).1 =
        .ok (script, info) →
      session.Describes space ⟨Walk.key ⟨session.unwinder, session.world, cursor⟩, script, info⟩ := by
    intro script info hanswer thread
    have hfound := (Walk.freshRules_eq_ok hanswer).1
    have hregistry := (Walk.looked_changes ⟨session.unwinder, session.world, cursor⟩).1
    simp only [hregistry] at hfound
    rw [← hfound]
    exact Walk.procFor_eq h _ rfl _ _ _
  obtain ⟨hrules, hused⟩ := Walk.frameRules_of_trusted hfresh hcurrent.trusted
  refine ⟨?_, hused⟩
  intro script info hanswer
  rw [procOf_eq_procFor]
  rcases hrules with ⟨entry, hentry, hkey, hhit⟩ | hmiss
  · obtain ⟨rfl, rfl⟩ := Prod.mk.inj (Except.ok.inj (hhit.symm.trans hanswer))
    have hfound := hentry cursor.thread
    rwa [hkey] at hfound
  · exact hfresh script info (hmiss.symm.trans hanswer) cursor.thread

theorem Describes.of_same (h : space.FindsBy epoch)
    (hepoch : epoch later.world = epoch session.world)
    (hregistry : later.unwinder.registry = session.unwinder.registry) {entry : CacheEntry}
    (hentry : session.Describes space entry) : later.Describes space entry := by
  intro thread
  rw [hregistry, Walk.procFor_eq h _ hepoch thread thread]
  exact hentry thread

theorem Current.of_cache_eq (h : space.FindsBy epoch) (hcurrent : session.Current space)
    (hkeeps : KeepsProcs space epoch session later)
    (hcache : later.unwinder.cache = session.unwinder.cache)
    (hadvances : session.unwinder.generation ≤ later.unwinder.generation) :
    later.Current space := by
  constructor
  · intro cache hsome
    rw [hcache] at hsome
    have htrusted := (hcurrent.trusted cache hsome).mono fun entry hentry =>
      Describes.of_same h hkeeps.epoch hkeeps.registry hentry
    by_cases hsame : cache.generation = session.unwinder.generation
    · exact htrusted.of_eq hsame _
    · refine htrusted.of_ne ?_ _
      intro hnow
      have hbehind := hcurrent.behind cache hsome
      rw [hnow] at hbehind hsame
      exact hsame (UInt64.le_antisymm hbehind hadvances)
  · intro cache hsome
    rw [hcache] at hsome
    exact UInt64.le_trans (hcurrent.behind cache hsome) hadvances

theorem Current.renewed (hcurrent : session.Current space) {registry : Registry} {world : World}
    (hadvances : session.unwinder.generation ≤
      (session.renewed registry world).unwinder.generation) :
    (session.renewed registry world).Current space := by
  refine ⟨hcurrent.behind.trusted_next hcurrent.trusted hadvances _, ?_⟩
  intro cache hsome
  exact UInt64.le_trans (hcurrent.behind cache hsome) hadvances

theorem cache_procInfo (walk : Walk World Thread) :
    ((Walk.procInfo space).perform walk).2.unwinder.cache = walk.unwinder.cache := by
  have hfound := (Walk.findProc_outcome space walk walk.cursor.lookupIp).2
  unfold Action.perform at hfound ⊢
  cases hkept : walk.cursor.procInfo with
  | some info => rw [Walk.procInfo_of_some hkept]
  | none =>
      cases hrun : Walk.findProc space walk.cursor.lookupIp walk with
      | error e found =>
          rw [hrun] at hfound
          rw [Walk.procInfo_of_failed hkept hrun]
          exact hfound
      | ok answer found =>
          rw [hrun] at hfound
          rw [Walk.procInfo_of_found hkept hrun]
          exact hfound

theorem cache_onCursor {α : Type} {action : Action (Walk World Thread) α} (index : Nat)
    (haction : ∀ walk, (action.perform walk).2.unwinder.cache = walk.unwinder.cache) :
    ((onCursor index action).perform session).2.unwinder.cache = session.unwinder.cache := by
  cases hcursor : session.cursors[index]? with
  | none =>
      unfold Action.perform
      rw [onCursor_of_none hcursor]
  | some acting =>
      rw [perform_onCursor hcursor]
      exact haction ⟨session.unwinder, session.world, acting⟩

theorem Current.after (h : space.FindsBy epoch) (hcurrent : session.Current space)
    (event : Event World Thread)
    (hadvances : session.unwinder.generation ≤ (session.after space event).unwinder.generation) :
    (session.after space event).Current space := by
  by_cases hrenews : event.Renews
  · rcases after_of_renews space session hrenews with
      hsame | ⟨registry, world, hnext⟩
    · rwa [hsame]
    · rw [hnext] at hadvances ⊢
      exact hcurrent.renewed hadvances
  · have hkeeps := after_keepsProcs session h hrenews
    cases event with
    | setReg index reg value =>
        refine hcurrent.of_cache_eq h hkeeps (cache_onCursor index fun walk => ?_) hadvances
        exact congrArg Unwinder.cache (Walk.setReg_stays h reg value walk).unwinder
    | procInfo index =>
        exact hcurrent.of_cache_eq h hkeeps (cache_onCursor index cache_procInfo) hadvances
    | request request =>
        refine ⟨?_, serve_behind hcurrent.trusted hcurrent.behind request hadvances⟩
        rcases serve_cases space session request with (hunused | ⟨cursor, honce⟩) | ⟨_, hbumped⟩
        · exact (hcurrent.of_cache_eq h hkeeps (congrArg Unwinder.cache hunused) hadvances).trusted
        · have hused := (hcurrent.frameRules h cursor).2
          rw [after_request, honce]
          exact hused.trusted.mono fun entry hentry =>
            Describes.of_same h hkeeps.epoch hkeeps.registry hentry
        · have hcache : (session.after space (.request request)).unwinder.cache =
              session.unwinder.cache := by
            rw [after_request, hbumped]
            rfl
          exact (hcurrent.of_cache_eq h hkeeps hcache hadvances).trusted

theorem current_run (h : space.FindsBy epoch) (hcurrent : session.Current space)
    (hadvances : session.Advances space events) :
    (events.foldl (Session.after space) session).Current space := by
  induction events generalizing session with
  | nil => exact hcurrent
  | cons event rest ih => exact ih (hcurrent.after h event hadvances.1) hadvances.2

theorem make_current (space : AddressSpace World Thread) (config : CacheConfig) (world : World) :
    (make config world).Current space :=
  ⟨Unwinder.trusted_make config _, make_behind config world⟩

/-- The procedures that cursors tell are those that a lookup finds, in a whole
run, exactly if no change of the unwind information concerns a frame that was
asked about.  In any run, what a cursor tells was found at some moment of it, and
what a step goes by is found now. -/
theorem procTold_eq_procOf_iff (h : space.FindsBy epoch) (config : CacheConfig) (world : World)
    (events : List (Event World Thread)) :
    let start : Session World Thread := make config world
    let moments := events.scanl (Session.after space) start
    let now := events.foldl (Session.after space) start
    ((∀ moment ∈ moments, ∀ cursor ∈ moment.cursors,
        moment.procTold space cursor = moment.procOf space cursor) ↔
      start.Spares space events) ∧
    (∀ cursor ∈ now.cursors, ∃ moment ∈ moments,
      now.procTold space cursor = moment.procOf space cursor) ∧
    (start.Advances space events → ∀ cursor script info,
      ((Walk.frameRules space).perform ⟨now.unwinder, now.world, cursor⟩).1 =
          .ok (script, info) →
        now.procOf space cursor = .ok info) := by
  intro start moments now
  have hstart : start.UpToDate space := by simp [start, UpToDate, make]
  refine ⟨?_, ?_, ?_⟩
  · rw [← upToDate_iff_spares h hstart]
    exact forall₂_congr fun moment _ => upToDate_iff.symm
  · intro cursor hcursor
    have hfound : now.FoundIn space moments := by
      have hnone : start.FoundIn space [] := by simp [start, FoundIn, make]
      exact foundIn_run h hnone
    rw [procTold_eq]
    cases hkept : cursor.procInfo with
    | none => exact ⟨now, foldl_mem_scanl start events, rfl⟩
    | some info =>
        obtain ⟨moment, hmoment, hinfo⟩ := hfound cursor hcursor info hkept
        exact ⟨moment, hmoment, hinfo.symm⟩
  · intro hadvances cursor script info hanswer
    have hcurrent := current_run h (make_current space config world) hadvances
    exact (hcurrent.frameRules h cursor).1 script info hanswer

theorem steadySpace_findsBy : steadySpace.FindsBy id where
  procedure := steadySpace_answersBy.procedure
  findProc _ _ _ := rfl
  releaseProc _ _ _ := rfl
  storeWord _ _ _ _ := rfl
  storeReg _ _ _ _ := rfl

/-- A region away from the code of the steady space. -/
def farRegion : Region :=
  { widerRegion with start := 0x9000, stop := 0x9100 }

/-- The region of the frame is there before the cursor is asked, another one
comes later. -/
def askedAfterwards : List (Event Int64 UInt64) :=
  [.request (.openCursor 0x7000), .request (.registerRegion widerRegion), .procInfo 0,
    .request (.step 0), .procInfo 0, .request (.registerRegion farRegion)]

/-- The cursor is asked, then the region of its frame comes. -/
def askedBefore : List (Event Int64 UInt64) :=
  [.request (.openCursor 0x7000), .procInfo 0, .request (.registerRegion widerRegion)]

theorem procTold_eq_procOf_askedAfterwards :
    steadySpace.FindsBy id ∧ (make {} 16).Advances steadySpace askedAfterwards ∧
      (∀ moment ∈ askedAfterwards.scanl (Session.after steadySpace) (make {} 16),
        ∀ cursor ∈ moment.cursors,
          moment.procTold steadySpace cursor = moment.procOf steadySpace cursor) := by
  have hspares : (make {} 16).Spares steadySpace askedAfterwards :=
    ⟨False.elim, fun _ => by decide +kernel, False.elim, False.elim, False.elim,
      fun _ => by decide +kernel, trivial⟩
  have hadvances : (make {} 16).Advances steadySpace askedAfterwards := by
    refine ⟨?_, ?_, ?_, ?_, ?_, ?_, trivial⟩ <;> decide +kernel
  have hiff := (procTold_eq_procOf_iff steadySpace_findsBy {} 16 askedAfterwards).1
  exact ⟨steadySpace_findsBy, hadvances, hiff.mpr hspares⟩

/-- The next step goes by the new region, but the cursor tells the old one. -/
theorem procTold_ne_procOf_askedBefore :
    let now := askedBefore.foldl (Session.after steadySpace) (make {} 16)
    steadySpace.FindsBy id ∧
      ¬(∀ cursor ∈ now.cursors,
        now.procTold steadySpace cursor = now.procOf steadySpace cursor) ∧
      (now.after steadySpace (.request (.step 0))).cursors.map
          (fun cursor => (cursor.cfa, cursor.lastStep)) =
        #[(0x7020, some .dynamic)] :=
  ⟨steadySpace_findsBy, by decide +kernel, by decide +kernel⟩

end Session
end StackWalk
