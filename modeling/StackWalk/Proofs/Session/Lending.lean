import StackWalk.Proofs.Cursor.Rules
import StackWalk.Proofs.Session.RefusedWrites

/-!
# Procedures asked for and given back

An address space can record how it is called for procedures, and a walk goes on
in the recorded world as it does without the record.  Every call that is
answered with a procedure is followed at once by the one that gives that
procedure back, whatever becomes of the action that needed it.
-/

namespace StackWalk

/-! ## Address spaces that record -/

/-- What the address space is asked for a procedure, or given back. -/
inductive Call (Thread : Type) where
  | asked (thread : Thread) (ip : UInt64) (answer : Except UnwindError ProcInfo)
  | released (thread : Thread) (info : ProcInfo)
  deriving DecidableEq

/-- A procedure was asked for and found. -/
def Call.isFound {Thread : Type} : Call Thread → Bool
  | .asked _ _ (.ok _) => true
  | _ => false

def Call.isRelease {Thread : Type} : Call Thread → Bool
  | .released _ _ => true
  | _ => false

/-- A world, and the calls that were made in it. -/
structure Recorded (World Thread : Type) where
  world : World
  calls : List (Call Thread)

variable {World Thread : Type}

def Recorded.onWorld {α : Type} (action : Action World α) : Action (Recorded World Thread) α :=
  Action.zoom Recorded.world (fun world past => { past with world := world }) action

/-- The address space, recording how it is called for procedures. -/
def AddressSpace.recorded (space : AddressSpace World Thread) :
    AddressSpace (Recorded World Thread) Thread where
  arch := space.arch
  loadWord past := space.loadWord past.world
  storeWord thread addr value := Recorded.onWorld (space.storeWord thread addr value)
  loadReg past := space.loadReg past.world
  storeReg thread reg value := Recorded.onWorld (space.storeReg thread reg value)
  loadFpReg past := space.loadFpReg past.world
  storeFpReg thread reg image := Recorded.onWorld (space.storeFpReg thread reg image)
  findProc past thread ip :=
    let lookup := space.findProc past.world thread ip
    { answer := lookup.answer
      world :=
        { world := lookup.world
          calls := past.calls ++ [.asked thread ip lookup.answer] }
      changes := lookup.changes }
  releaseProc past thread info :=
    { world := space.releaseProc past.world thread info
      calls := past.calls ++ [.released thread info] }
  procName past := space.procName past.world
  probe past := space.probe past.world

namespace Walk

/-- The walk without the record. -/
def unrecorded (walk : Walk (Recorded World Thread) Thread) : Walk World Thread where
  unwinder := walk.unwinder
  world := walk.world.world
  cursor := walk.cursor

open StackWalk.Action

variable {space : AddressSpace World Thread}

theorem release_showsAs (info : ProcInfo) :
    ShowsAs unrecorded (release space.recorded info) (release space info) :=
  .modify fun _ => rfl

theorem findInSpace_showsAs (ip : UInt64) :
    ShowsAs unrecorded (findInSpace space.recorded ip) (findInSpace space ip) :=
  .get_bind fun _ => .bind (.set rfl) fun _ => .lift _

theorem findProc_showsAs (ip : UInt64) :
    ShowsAs unrecorded (findProc space.recorded ip) (findProc space ip) := by
  refine .get_bind fun walk => ?_
  dsimp only [unrecorded]
  cases walk.unwinder.registry.find? ip with
  | some region => exact .pure _
  | none =>
      refine .bind (findInSpace_showsAs ip) fun info => ?_
      cases info.contains ip with
      | true => exact .pure _
      | false => exact .bind (release_showsAs info) fun _ => .throw _

theorem buildRow_showsAs (info : ProcInfo) (ip : UInt64) :
    ShowsAs unrecorded (buildRow space.recorded info ip) (buildRow space info ip) :=
  .get_bind fun _ => .bind (.set rfl) fun _ => .pure _

theorem keepRules_showsAs (generation : UInt64) (key : CacheKey) (info : ProcInfo)
    (row : Except UnwindError Row) :
    ShowsAs (@unrecorded World Thread) (keepRules generation key info row)
      (keepRules generation key info row) := by
  refine .bind (.lift row) fun row => ?_
  cases Script.compile row with
  | none => exact .pure _
  | some script => exact .get_bind fun _ => .bind (.set rfl) fun _ => .pure _

theorem freshRules_showsAs (generation : UInt64) (key : CacheKey) :
    ShowsAs unrecorded (freshRules space.recorded generation key)
      (freshRules space generation key) := by
  rw [freshRules_eq, freshRules_eq]
  refine .bind (findProc_showsAs key.ip) fun ⟨info, provided⟩ => ?_
  refine .bind (buildRow_showsAs info key.ip) fun row => ?_
  cases provided with
  | false => exact keepRules_showsAs generation key info row
  | true => exact .bind (release_showsAs info) fun _ => keepRules_showsAs generation key info row

theorem frameRules_showsAs :
    ShowsAs unrecorded (frameRules space.recorded) (frameRules space) := by
  refine .get_bind fun walk => ?_
  dsimp only [unrecorded]
  cases (walk.unwinder.lookupScript ⟨walk.cursor.lookupIp, walk.cursor.predicates⟩
      walk.cursor.hint).1 with
  | some hit => exact .bind (.set rfl) fun _ => .pure _
  | none => exact .bind (.set rfl) fun _ => freshRules_showsAs _ _

theorem unwindByRules_showsAs :
    ShowsAs unrecorded (unwindByRules space.recorded) (unwindByRules space) :=
  .bind frameRules_showsAs fun _ => .get_bind fun _ => .bind (.lift _) fun _ => .pure _

theorem unwindFrame_showsAs :
    ShowsAs unrecorded (unwindFrame space.recorded) (unwindFrame space) := by
  refine .get_bind fun walk => .bind (.lift _) fun found => ?_
  cases found with
  | some unwound => exact .pure unwound
  | none =>
      refine .bind (.attempt unwindByRules_showsAs) fun outcome => ?_
      cases outcome with
      | ok unwound => exact .pure unwound
      | error e =>
          dsimp only
          split
          · exact .get_bind fun _ => .lift _
          · exact .throw e

theorem step_showsAs : ShowsAs unrecorded (step space.recorded) (step space) := by
  refine .bind (.attempt unwindFrame_showsAs) fun outcome => ?_
  cases outcome with
  | ok unwound =>
      refine .get_bind fun walk => .bind (.lift _) fun ip => ?_
      cases ip with
      | none => exact .pure false
      | some ip => exact .bind (.modify fun _ => rfl) fun _ => .pure true
  | error e =>
      cases e with
      | stopUnwind => exact .pure false
      | _ => exact .throw _

theorem argsSize_showsAs : ShowsAs unrecorded (argsSize space.recorded) (argsSize space) :=
  .bind frameRules_showsAs fun _ => .pure _

theorem isSignalFrame_showsAs :
    ShowsAs unrecorded (isSignalFrame space.recorded) (isSignalFrame space) := by
  refine .get_bind fun _ => .ite (fun _ => .pure true) fun _ => ?_
  refine .bind (.attempt frameRules_showsAs) fun outcome => ?_
  cases outcome with
  | ok rules => exact .pure _
  | error e => exact .pure false

theorem procInfo_showsAs : ShowsAs unrecorded (procInfo space.recorded) (procInfo space) := by
  refine .get_bind fun walk => ?_
  dsimp only [unrecorded]
  cases walk.cursor.procInfo with
  | some info => exact .pure info
  | none =>
      refine .bind (findProc_showsAs walk.cursor.lookupIp) fun ⟨info, provided⟩ => ?_
      cases provided with
      | false => exact .bind (.modify fun _ => rfl) fun _ => .pure info
      | true =>
          exact .bind (release_showsAs info) fun _ =>
            .bind (.modify fun _ => rfl) fun _ => .pure info

theorem procName_showsAs (room : Nat) :
    ShowsAs unrecorded (procName space.recorded room) (procName space room) := by
  refine .get_bind fun walk => ?_
  dsimp only [unrecorded]
  split
  · exact .pure _
  · exact .lift _

theorem onWorld_showsAs {α : Type} (action : Action World α) :
    ShowsAs (@unrecorded World Thread) (onWorld (Recorded.onWorld action)) (onWorld action) := by
  intro walk
  unfold onWorld Recorded.onWorld zoom
  dsimp only [unrecorded]
  cases action walk.world.world <;> rfl

theorem write_recorded (loc : Location) (thread : Thread) (validate : Bool) (reg : Column)
    (value : UInt64) :
    loc.write space.recorded thread validate reg value =
      Recorded.onWorld (loc.write space thread validate reg value) := by
  funext past
  cases loc with
  | lost => rfl
  | register source fp => rfl
  | memory addr fp =>
      cases validate with
      | false => rfl
      | true =>
          simp only [Location.write, AddressSpace.writeWord, if_true, get_bind_apply,
            Recorded.onWorld, zoom, AddressSpace.recorded]
          cases space.probe past.world thread addr <;> rfl
  | value word => rfl

theorem setReg_showsAs (reg : Column) (value : UInt64) :
    ShowsAs unrecorded (setReg space.recorded reg value) (setReg space reg value) := by
  rw [setReg, setReg, location_bind, location_bind]
  refine .bind (.lift _) fun column => .get_bind fun _ => .get_bind fun walk => ?_
  refine .ite (fun _ => .throw _) fun _ => .bind ?_ fun _ => ?_
  · rw [write_recorded]
    exact onWorld_showsAs _
  · exact .ite (fun _ => .modify fun _ => rfl) fun _ => .pure _

end Walk

/-! ## Giving back -/

/-- One question for a procedure, and the answer. -/
structure Exchange (Thread : Type) where
  thread : Thread
  ip : UInt64
  answer : Except UnwindError ProcInfo

/-- The question, and what was answered given back at once. -/
def Exchange.calls (exchange : Exchange Thread) : List (Call Thread) :=
  .asked exchange.thread exchange.ip exchange.answer ::
    match exchange.answer with
    | .ok info => [.released exchange.thread info]
    | .error _ => []

/-- Between the two records lie whole exchanges. -/
def Settles (before after : List (Call Thread)) : Prop :=
  ∃ exchanges : List (Exchange Thread), after = before ++ exchanges.flatMap Exchange.calls

theorem Settles.refl (calls : List (Call Thread)) : Settles calls calls :=
  ⟨[], by simp⟩

theorem Settles.trans {first second third : List (Call Thread)} (h₁ : Settles first second)
    (h₂ : Settles second third) : Settles first third := by
  obtain ⟨exchanges₁, rfl⟩ := h₁
  obtain ⟨exchanges₂, rfl⟩ := h₂
  exact ⟨exchanges₁ ++ exchanges₂, by simp⟩

theorem Settles.one (before : List (Call Thread)) (exchange : Exchange Thread) :
    Settles before (before ++ exchange.calls) :=
  ⟨[exchange], by simp⟩

theorem Exchange.countP_calls (exchange : Exchange Thread) :
    exchange.calls.countP Call.isRelease = exchange.calls.countP Call.isFound := by
  unfold calls
  cases exchange.answer <;> rfl

/-- As many are given back as were found. -/
theorem Settles.counts {before after : List (Call Thread)} (h : Settles before after)
    (hbefore : before.countP Call.isRelease = before.countP Call.isFound) :
    after.countP Call.isRelease = after.countP Call.isFound := by
  obtain ⟨exchanges, rfl⟩ := h
  simp only [List.countP_append, List.countP_flatMap, hbefore, Function.comp_def,
    Exchange.countP_calls]

namespace Walk

variable {space : AddressSpace World Thread}

/-- A registered region holds the address that rules are looked up for. -/
def InRegion (walk : Walk World Thread) : Prop :=
  walk.unwinder.registry.find? walk.cursor.lookupIp ≠ none

/-- There was no call, and the walk is in the same region if in any. -/
structure Quiet (before after : Walk (Recorded World Thread) Thread) : Prop where
  calls : after.world.calls = before.world.calls
  registry : after.unwinder.registry = before.unwinder.registry
  lookupIp : after.cursor.lookupIp = before.cursor.lookupIp

instance : IsPreorder (Walk (Recorded World Thread) Thread) Quiet where
  refl _ := ⟨rfl, rfl, rfl⟩
  trans _ _ _ h₁ h₂ :=
    ⟨h₂.calls.trans h₁.calls, h₂.registry.trans h₁.registry, h₂.lookupIp.trans h₁.lookupIp⟩

/-- The one call was to give the procedure back. -/
def GivesBack (info : ProcInfo) (before after : Walk (Recorded World Thread) Thread) : Prop :=
  after.world.calls = before.world.calls ++ [.released before.cursor.thread info]

/-- What was asked for was given back.  In a region there was no call. -/
structure Consulted (before after : Walk (Recorded World Thread) Thread) : Prop where
  settles : Settles before.world.calls after.world.calls
  region : before.InRegion → after.world.calls = before.world.calls ∧ after.InRegion

instance : IsPreorder (Walk (Recorded World Thread) Thread) Consulted where
  refl _ := ⟨.refl _, fun h => ⟨rfl, h⟩⟩
  trans first second third h₁ h₂ := by
    refine ⟨h₁.settles.trans h₂.settles, fun hregion => ?_⟩
    obtain ⟨hcalls₁, hregion₁⟩ := h₁.region hregion
    obtain ⟨hcalls₂, hregion₂⟩ := h₂.region hregion₁
    exact ⟨hcalls₂.trans hcalls₁, hregion₂⟩

theorem Quiet.consulted {before after : Walk (Recorded World Thread) Thread}
    (h : Quiet before after) : Consulted before after := by
  refine ⟨h.calls ▸ .refl _, fun hregion => ⟨h.calls, ?_⟩⟩
  unfold InRegion
  rwa [h.registry, h.lookupIp]

/-- What goes on quietly with a region, and gives back what it is lent, settles
all calls. -/
theorem findProc_bind_consulted {α : Type} {walk : Walk (Recorded World Thread) Thread}
    {f : ProcInfo × Bool → Action (Walk (Recorded World Thread) Thread) α}
    (hgiven : ∀ info, (f (info, false)).Keeps Quiet)
    (hlent : ∀ info, (f (info, true)).Keeps (GivesBack info)) :
    Consulted walk ((findProc space.recorded walk.cursor.lookupIp >>= f).perform walk).2 := by
  cases hregion : walk.unwinder.registry.find? walk.cursor.lookupIp with
  | some region =>
      unfold Action.perform
      rw [Action.bind_eq_of_ok (findProc_of_region hregion)]
      exact (hgiven _ walk).consulted
  | none =>
      refine ⟨?_, fun hsome => absurd hregion hsome⟩
      have hrun := @findProc_of_no_region _ _ space.recorded _ _ hregion
      have hasked : (asked space.recorded walk walk.cursor.lookupIp).world.calls =
          walk.world.calls ++ [.asked walk.cursor.thread walk.cursor.lookupIp
            (space.findProc walk.world.world walk.cursor.thread walk.cursor.lookupIp).answer] :=
        rfl
      have hanswer : (space.recorded.findProc walk.world walk.cursor.thread
          walk.cursor.lookupIp).answer =
            (space.findProc walk.world.world walk.cursor.thread walk.cursor.lookupIp).answer :=
        rfl
      rw [hanswer] at hrun
      unfold Action.perform
      cases hfound : (space.findProc walk.world.world walk.cursor.thread
          walk.cursor.lookupIp).answer with
      | error e =>
          rw [hfound] at hrun hasked
          rw [Action.bind_eq_of_error hrun]
          change Settles _ (asked space.recorded walk _).world.calls
          rw [hasked]
          exact .one _ ⟨_, _, .error e⟩
      | ok info =>
          rw [hfound] at hrun hasked
          have hsettled : ∀ {calls}, calls = (asked space.recorded walk
              walk.cursor.lookupIp).world.calls ++ [.released walk.cursor.thread info] →
                Settles walk.world.calls calls := by
            rintro _ rfl
            rw [hasked, List.append_assoc]
            exact .one _ ⟨walk.cursor.thread, walk.cursor.lookupIp, .ok info⟩
          dsimp only at hrun
          -- One that does not hold the address is given back by the lookup itself.
          split at hrun
          · rw [Action.bind_eq_of_ok hrun]
            exact hsettled (hlent info (asked space.recorded walk walk.cursor.lookupIp))
          · rw [Action.bind_eq_of_error hrun]
            exact hsettled rfl

theorem buildRow_quiet (info : ProcInfo) (ip : UInt64) :
    (buildRow space.recorded info ip).Keeps Quiet := by
  apply Action.Keeps.get_bind
  exact fun walk => ⟨rfl, rfl, rfl⟩

theorem keepRules_quiet (generation : UInt64) (key : CacheKey) (info : ProcInfo)
    (row : Except UnwindError Row) :
    (keepRules generation key info row : Action (Walk (Recorded World Thread) Thread) _).Keeps
      Quiet := by
  intro walk
  unfold Action.perform
  cases row with
  | error e => exact refl_of _ walk
  | ok row =>
      cases hscript : Script.compile row with
      | none =>
          rw [keepRules_of_none hscript]
          exact refl_of _ walk
      | some script =>
          rw [keepRules_of_some hscript]
          obtain ⟨cache, hstored⟩ :=
            storeScript_changes walk.unwinder generation key script info
          exact ⟨rfl, congrArg (·.registry) hstored, rfl⟩

theorem freshRules_consulted (generation : UInt64) {key : CacheKey}
    {walk : Walk (Recorded World Thread) Thread} (hip : key.ip = walk.cursor.lookupIp) :
    Consulted walk ((freshRules space.recorded generation key).perform walk).2 := by
  rw [freshRules_eq, hip]
  apply findProc_bind_consulted
  · intro info
    exact .bind (buildRow_quiet info _) fun row => keepRules_quiet generation key info row
  · intro info walk
    exact (keepRules_quiet generation key info _ _).calls

theorem frameRules_consulted : (frameRules space.recorded).Keeps Consulted := by
  intro walk
  have hmissed : Quiet walk { walk with unwinder := walk.looked.2 } :=
    ⟨rfl, walk.looked_changes.1, rfl⟩
  unfold Action.perform
  rcases frameRules_cases space.recorded walk with ⟨slot, entry, -, hrun⟩ | hrun
  · rw [hrun]
    exact Quiet.consulted ⟨rfl, walk.looked_changes.1, rfl⟩
  · rw [hrun]
    exact trans_of _ hmissed.consulted (freshRules_consulted _ rfl)

theorem procInfo_consulted : (procInfo space.recorded).Keeps Consulted := by
  apply Action.Keeps.get_bind
  intro walk
  dsimp only
  cases walk.cursor.procInfo with
  | some info => exact refl_of Consulted walk
  | none =>
      apply findProc_bind_consulted
      · intro info
        exact .bind (.of_modify fun _ => ⟨rfl, rfl, rfl⟩) fun _ => .pure info
      · exact fun info walk => rfl

/-! ## Tasks of cursors -/

/-- There was no call. -/
def SameCalls (before after : Walk (Recorded World Thread) Thread) : Prop :=
  after.world.calls = before.world.calls

instance : IsPreorder (Walk (Recorded World Thread) Thread) SameCalls where
  refl _ := rfl
  trans _ _ _ h₁ h₂ := Eq.trans h₂ h₁

/-- What was asked for was given back, and for a frame in a region there was no
call. -/
structure Balanced (before after : Walk (Recorded World Thread) Thread) : Prop where
  settles : Settles before.world.calls after.world.calls
  region : before.InRegion → after.world.calls = before.world.calls

theorem Consulted.balanced {before after : Walk (Recorded World Thread) Thread}
    (h : Consulted before after) : Balanced before after :=
  ⟨h.settles, fun hregion => (h.region hregion).1⟩

theorem SameCalls.balanced {before after : Walk (Recorded World Thread) Thread}
    (h : SameCalls before after) : Balanced before after :=
  ⟨h ▸ .refl _, fun _ => h⟩

theorem modifyCursor_sameCalls (change : Cursor Thread → Cursor Thread) :
    (modifyCursor change : Action (Walk (Recorded World Thread) Thread) Unit).Keeps SameCalls :=
  .of_modify fun _ => rfl

theorem step_balanced : (step space.recorded).Keeps Balanced := by
  -- The search makes all calls; what follows may take the cursor out of the region.
  refine @Action.Keeps.seq _ _ _ Consulted SameCalls Balanced _ _
    (.attempt (unwindFrame_keeps frameRules_consulted)) (fun outcome => ?_)
    (fun _ _ h => h.balanced) ?_
  · cases outcome with
    | ok unwound =>
        refine .get_bind fun walk => Action.Keeps.bind (.lift _) (fun ip => ?_) walk
        cases ip with
        | none => exact .pure false
        | some ip => exact .bind (modifyCursor_sameCalls _) fun _ => .pure true
    | error e =>
        cases e with
        | stopUnwind => exact .pure false
        | _ => exact .throw _
  · intro first second third hsearched hsame
    refine ⟨hsame ▸ hsearched.settles, fun hregion => ?_⟩
    exact Eq.trans hsame (hsearched.region hregion).1

theorem onWorld_sameCalls {α : Type} (action : Action World α) :
    (onWorld (Recorded.onWorld action) :
      Action (Walk (Recorded World Thread) Thread) α).Keeps SameCalls := by
  intro walk
  unfold Action.perform onWorld Recorded.onWorld Action.zoom
  cases action walk.world.world <;> rfl

theorem setReg_sameCalls (reg : Column) (value : UInt64) :
    (setReg space.recorded reg value).Keeps SameCalls := by
  have hlocation : (location space.recorded reg).Keeps SameCalls :=
    .bind (.lift _) fun column => .get_bind fun walk => refl_of SameCalls walk
  refine .bind hlocation fun loc => .get_bind fun walk => ?_
  dsimp only
  split
  · exact refl_of SameCalls walk
  · rw [write_recorded]
    refine Action.Keeps.bind (onWorld_sameCalls _) (fun _ => ?_) walk
    split
    · exact modifyCursor_sameCalls _
    · exact .pure _

theorem procName_sameCalls (room : Nat) : (procName space.recorded room).Keeps SameCalls := by
  apply Action.Keeps.get_bind
  intro walk
  dsimp only
  split
  · exact refl_of SameCalls walk
  · exact Action.Keeps.lift _ walk

end Walk

end StackWalk
