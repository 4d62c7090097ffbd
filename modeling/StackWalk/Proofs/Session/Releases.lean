import StackWalk.Proofs.Session.Lending

/-!
# Lookups and releases in balance

Whatever the cursors of a session are told to do, and whatever becomes of the
regions, of the cache and of the world meanwhile: at the end of every task the
procedures that the address space was asked for with success have all been given
back, one by one and each right after it was found.
-/

namespace StackWalk

variable {World Thread : Type}

/-! ## Tasks -/

/-- What a cursor can be told to do. -/
inductive Task where
  | step
  | procInfo
  | argsSize
  | isSignalFrame
  | procName (room : Nat)
  | setReg (reg : Column) (value : UInt64)
  | setPredicates (predicates : Predicates)
  | setValidate (validate : Bool)

namespace Walk

variable {space : AddressSpace World Thread}

/-- Does the task, whatever it answers. -/
def carryOut (space : AddressSpace World Thread) : Task → Action (Walk World Thread) Unit
  | .step => do
      let _ ← step space
      return ()
  | .procInfo => do
      let _ ← procInfo space
      return ()
  | .argsSize => do
      let _ ← argsSize space
      return ()
  | .isSignalFrame => do
      let _ ← isSignalFrame space
      return ()
  | .procName room => do
      let _ ← procName space room
      return ()
  | .setReg reg value =>
      setReg space reg value
  | .setPredicates predicates =>
      modifyCursor fun cursor => { cursor with predicates := predicates }
  | .setValidate validate =>
      modifyCursor fun cursor => { cursor with validate := validate }

theorem carryOut_showsAs (task : Task) :
    Action.ShowsAs unrecorded (carryOut space.recorded task) (carryOut space task) := by
  cases task with
  | step => exact .bind step_showsAs fun _ => .pure ()
  | procInfo => exact .bind procInfo_showsAs fun _ => .pure ()
  | argsSize => exact .bind argsSize_showsAs fun _ => .pure ()
  | isSignalFrame => exact .bind isSignalFrame_showsAs fun _ => .pure ()
  | procName room => exact .bind (procName_showsAs room) fun _ => .pure ()
  | setReg reg value => exact setReg_showsAs reg value
  | setPredicates predicates => exact .modify fun _ => rfl
  | setValidate validate => exact .modify fun _ => rfl

theorem carryOut_balanced (task : Task) :
    (carryOut space.recorded task).Keeps Balanced := by
  have hsame : ∀ {α : Type} {action : Action (Walk (Recorded World Thread) Thread) α},
      action.Keeps SameCalls → action.Keeps Balanced :=
    fun haction walk => (haction walk).balanced
  have hconsulted : ∀ {α : Type} {action : Action (Walk (Recorded World Thread) Thread) α},
      action.Keeps Consulted → action.Keeps Balanced :=
    fun haction walk => (haction walk).balanced
  cases task with
  | step => exact step_balanced.bind_pure _
  | procInfo => exact (hconsulted procInfo_consulted).bind_pure _
  | argsSize => exact (hconsulted (argsSize_keeps frameRules_consulted)).bind_pure _
  | isSignalFrame => exact (hconsulted (isSignalFrame_keeps frameRules_consulted)).bind_pure _
  | procName room => exact (hsame (procName_sameCalls room)).bind_pure _
  | setReg reg value => exact hsame (setReg_sameCalls reg value)
  | setPredicates predicates => exact fun walk => ⟨.refl _, fun _ => rfl⟩
  | setValidate validate => exact fun walk => ⟨.refl _, fun _ => rfl⟩

end Walk

/-! ## Sessions -/

namespace Session

/-- What can happen to a session: a cursor is made or told to do something, or
the unwinder or the world is changed from outside. -/
inductive Happening (World Thread : Type) where
  | openCursor (thread : Thread)
  | task (index : Nat) (task : Task)
  | unwinder (change : Unwinder → Unwinder)
  | world (change : World → World)

def happen (space : AddressSpace World Thread) (session : Session World Thread) :
    Happening World Thread → Session World Thread
  | .openCursor thread => ((openCursor space thread).perform session).2
  | .task index task => ((onCursor index (Walk.carryOut space task)).perform session).2
  | .unwinder change => { session with unwinder := change session.unwinder }
  | .world change => { session with world := change session.world }

/-- The same in a recorded world. -/
def Happening.recorded : Happening World Thread → Happening (Recorded World Thread) Thread
  | .openCursor thread => .openCursor thread
  | .task index told => .task index told
  | .unwinder change => .unwinder change
  | .world change => .world fun past => { past with world := change past.world }

/-- The session without the record. -/
def unrecorded (session : Session (Recorded World Thread) Thread) : Session World Thread where
  unwinder := session.unwinder
  world := session.world.world
  cursors := session.cursors

variable {space : AddressSpace World Thread}
  {session : Session (Recorded World Thread) Thread}

theorem openCursor_showsAs (thread : Thread) :
    Action.ShowsAs unrecorded (openCursor space.recorded thread) (openCursor space thread) :=
  .get_bind fun _ => .bind (.lift _) fun _ => .bind (.set rfl) fun _ => .pure _

theorem onCursor_showsAs {α : Type} {recorded : Action (Walk (Recorded World Thread) Thread) α}
    {plain : Action (Walk World Thread) α}
    (h : Action.ShowsAs Walk.unrecorded recorded plain) (index : Nat) :
    Action.ShowsAs unrecorded (onCursor index recorded) (onCursor index plain) := by
  intro session
  have hcursors : session.unrecorded.cursors = session.cursors := rfl
  unfold onCursor
  rw [hcursors]
  cases session.cursors[index]? with
  | none => rfl
  | some cursor =>
      have hwalk := h ⟨session.unwinder, session.world, cursor⟩
      have hplain : Walk.unrecorded ⟨session.unwinder, session.world, cursor⟩ =
          ⟨session.unrecorded.unwinder, session.unrecorded.world, cursor⟩ := rfl
      rw [hplain] at hwalk
      dsimp only
      rw [← hwalk]
      cases recorded ⟨session.unwinder, session.world, cursor⟩ <;> rfl

theorem unrecorded_happen (session : Session (Recorded World Thread) Thread)
    (happening : Happening World Thread) :
    (session.happen space.recorded happening.recorded).unrecorded =
      session.unrecorded.happen space happening := by
  cases happening with
  | openCursor thread =>
      exact (congrArg Prod.snd ((openCursor_showsAs thread).perform session)).symm
  | task index task =>
      have hshows := onCursor_showsAs (@Walk.carryOut_showsAs _ _ space task) index
      exact (congrArg Prod.snd (hshows.perform session)).symm
  | unwinder change => rfl
  | world change => rfl

theorem unrecorded_run (session : Session (Recorded World Thread) Thread)
    (happenings : List (Happening World Thread)) :
    ((happenings.map Happening.recorded).foldl (happen space.recorded) session).unrecorded =
      happenings.foldl (happen space) session.unrecorded := by
  induction happenings generalizing session with
  | nil => rfl
  | cons happening rest ih =>
      rw [List.map_cons, List.foldl_cons, List.foldl_cons, ih, unrecorded_happen]

theorem happen_settles (session : Session (Recorded World Thread) Thread)
    (happening : Happening World Thread) :
    Settles session.world.calls
      (session.happen space.recorded happening.recorded).world.calls := by
  cases happening with
  | openCursor thread =>
      change Settles _ ((openCursor space.recorded thread).perform session).2.world.calls
      unfold Action.perform openCursor
      simp only [Action.get_bind_apply]
      cases Cursor.make space.recorded session.world thread <;> exact .refl _
  | task index task =>
      change Settles _
        ((onCursor index (Walk.carryOut space.recorded task)).perform session).2.world.calls
      cases hcursor : session.cursors[index]? with
      | none =>
          unfold Action.perform
          rw [onCursor_of_none hcursor]
          exact .refl _
      | some cursor =>
          rw [perform_onCursor hcursor]
          exact (Walk.carryOut_balanced task _).settles
  | unwinder change => exact .refl _
  | world change => exact .refl _

theorem run_settles (session : Session (Recorded World Thread) Thread)
    (happenings : List (Happening World Thread)) :
    Settles session.world.calls
      ((happenings.map Happening.recorded).foldl (happen space.recorded) session).world.calls := by
  induction happenings generalizing session with
  | nil => exact .refl _
  | cons happening rest ih => exact (happen_settles session happening).trans (ih _)

/-- After any run the calls are questions for a procedure one after the other,
and where one was answered with a procedure, this is given back before the next.
So as many are given back as were found.  Recording the calls has not changed the
run, and for a frame in a registered region none is made. -/
theorem calls_settled (space : AddressSpace World Thread) (config : CacheConfig) (world : World)
    (happenings : List (Happening World Thread)) :
    let now := (happenings.map Happening.recorded).foldl (happen space.recorded)
      (make config ⟨world, []⟩)
    now.unrecorded = happenings.foldl (happen space) (make config world) ∧
      (∃ exchanges : List (Exchange Thread),
        now.world.calls = exchanges.flatMap Exchange.calls) ∧
      now.world.calls.countP Call.isRelease = now.world.calls.countP Call.isFound ∧
      ∀ index cursor task, now.cursors[index]? = some cursor →
        now.unwinder.registry.find? cursor.lookupIp ≠ none →
          (now.happen space.recorded (.task index task)).world.calls = now.world.calls := by
  intro now
  have hsettles : Settles [] now.world.calls := run_settles _ happenings
  refine ⟨unrecorded_run _ happenings, ?_, hsettles.counts rfl, ?_⟩
  · obtain ⟨exchanges, hcalls⟩ := hsettles
    exact ⟨exchanges, hcalls⟩
  · intro index cursor task hcursor hregion
    change ((onCursor index (Walk.carryOut space.recorded task)).perform now).2.world.calls = _
    rw [perform_onCursor hcursor]
    exact (Walk.carryOut_balanced task _).region hregion

/-- A procedure without unwind information, from `0x1000` on. -/
def lentProc : ProcInfo where
  start := 0x1000
  stop := 0x2000

/-- An address space that answers with that procedure, wherever it is asked below
`0x5000`. -/
def lendingSpace : AddressSpace Unit Unit where
  arch := .x86_64
  loadWord _ _ addr := .error (.unreadable addr)
  storeWord _ addr _ := throw (.unreadable addr)
  loadReg _ _ reg := .ok (if reg = 16 then 0x1000 else 0x8000)
  storeReg _ _ _ := pure ()
  loadFpReg _ _ reg := .error (.badRegister (UInt64.ofNat reg))
  storeFpReg _ reg _ := throw (.readOnlyRegister reg)
  findProc world _ ip := ⟨if ip < 0x5000 then .ok lentProc else .error (.noInfo ip), world, 0⟩
  releaseProc world _ _ := world
  procName _ _ ip _ := .error (.noInfo ip)
  probe _ _ _ := .ok ()

def lateRegion : Region where
  name := none
  start := 0x5000
  stop := 0x6000
  returnAddress := 16
  ops := []

/-- A procedure of no use, one that does not hold the address, none at all, and
then a region. -/
def lendings : List (Happening Unit Unit) :=
  [.openCursor (), .task 0 .step, .task 0 (.setReg 16 0x3000), .task 0 .procInfo,
    .task 0 (.setReg 16 0x5000), .task 0 .isSignalFrame,
    .unwinder fun unwinder =>
      match unwinder.registerRegion lateRegion with
      | .ok (_, after) => after
      | .error _ => unwinder]

def lentSession : Session (Recorded Unit Unit) Unit :=
  (lendings.map Happening.recorded).foldl (happen lendingSpace.recorded) (make {} ⟨(), []⟩)

theorem calls_settled_lendings :
    lentSession.world.calls =
        [.asked () 0x1000 (.ok lentProc), .released () lentProc,
          .asked () 0x3000 (.ok lentProc), .released () lentProc,
          .asked () 0x5000 (.error (.noInfo 0x5000))] ∧
      lentSession.world.calls.countP Call.isRelease =
        lentSession.world.calls.countP Call.isFound ∧
      (lentSession.happen lendingSpace.recorded (.task 0 .argsSize)).world.calls =
        lentSession.world.calls := by
  obtain ⟨-, -, hcounts, hregion⟩ := calls_settled lendingSpace {} () lendings
  rw [← lentSession] at hcounts hregion
  have hfound : lentSession.cursors[0]?.map (fun cursor =>
      (lentSession.unwinder.registry.find? cursor.lookupIp).isSome) = some true := by
    decide +kernel
  obtain ⟨cursor, hcursor, hholds⟩ := Option.map_eq_some_iff.mp hfound
  exact ⟨by decide +kernel, hcounts,
    hregion 0 cursor .argsSize hcursor (Option.isSome_iff_ne_none.mp hholds)⟩

end Session
end StackWalk
