import StackWalk.Proofs.Cursor.Agreement
import StackWalk.Proofs.Cursor.Step

/-!
# Walking a program at rest

While a thread of a program at rest is unwound, it reads the same whatever it
was asked before.  Each step of such a walk is a step of the rules or of the
heuristics applied to one fixed target, whether or not a cache is used.
-/

namespace StackWalk

variable {World Thread : Type}

/-- Whatever the thread asks for, it reads `target`, and its lookups are
answered by `procs`. -/
structure AddressSpace.AtRest (space : AddressSpace World Thread) (thread : Thread)
    (world : World) (target : Target) (procs : UInt64 → Except UnwindError ProcInfo) :
    Prop where
  target_eq : ∀ {after : World}, Relation.ReflTransGen (space.Consults thread) world after →
    space.target after thread false = target
  answer_eq : ∀ {after : World}, Relation.ReflTransGen (space.Consults thread) world after →
    ∀ ip, (space.findProc after thread ip).answer = procs ip

namespace Walk

/-- The rules that lookups answered by `procs` lead to. -/
def rulesAt (target : Target) (procs : UInt64 → Except UnwindError ProcInfo) (key : CacheKey) :
    Except UnwindError (Script × ProcInfo) := do
  let info ← procs key.ip
  if info.contains key.ip then
    let row ← (rowIn target .empty info key.ip key.predicates).1
    return (row.toScript, info)
  else
    throw (.noInfo key.ip)

/-- The caller that the rules of a frame lead to. -/
def ruledAt (target : Target) (procs : UInt64 → Except UnwindError ProcInfo)
    (cursor : Cursor Thread) : Except UnwindError Unwound := do
  let (script, info) ← rulesAt target procs ⟨cursor.lookupIp, cursor.predicates⟩
  let (cfa, locs) ← applyRules target cursor.locs script.cfa script.rules
  return callerByRules script info cfa locs

/-- The caller of a frame outside of signal trampolines. -/
def unwoundAt (target : Target) (procs : UInt64 → Except UnwindError ProcInfo)
    (cursor : Cursor Thread) : Except UnwindError Unwound :=
  match ruledAt target procs cursor with
  | .ok unwound => .ok unwound
  | .error e =>
      if e.allowsFallback then
        unwindByHeuristics target cursor.frame e
      else
        .error e

/-- A walk of `thread` that began in `world`, without regions. -/
structure Resting (space : AddressSpace World Thread) (thread : Thread) (world : World)
    (target : Target) (procs : UInt64 → Except UnwindError ProcInfo)
    (walk : Walk World Thread) : Prop where
  thread_eq : walk.cursor.thread = thread
  unchecked : walk.cursor.validate = false
  reached : Relation.ReflTransGen (space.Consults thread) world walk.world
  registry : walk.unwinder.registry = .empty
  trusted : walk.unwinder.Trusted fun entry =>
    rulesAt target procs entry.key = .ok (entry.script, entry.info)

variable {space : AddressSpace World Thread} {thread : Thread} {world : World} {target : Target}
  {procs : UInt64 → Except UnwindError ProcInfo} {walk : Walk World Thread}

namespace Resting

theorem target_eq (hrest : space.AtRest thread world target procs)
    (h : Resting space thread world target procs walk) : walk.target space = target := by
  unfold Walk.target
  rw [h.thread_eq, h.unchecked]
  exact hrest.target_eq h.reached

theorem rulesFor_eq (hrest : space.AtRest thread world target procs)
    (h : Resting space thread world target procs walk) (key : CacheKey) :
    rulesFor space walk.unwinder.registry walk.world walk.cursor.thread key =
      rulesAt target procs key := by
  have hnone : Registry.empty.find? key.ip = none := rfl
  unfold rulesFor procFor rulesAt
  rw [h.registry, h.thread_eq, hrest.answer_eq h.reached, hrest.target_eq h.reached]
  simp only [hnone]
  cases procs key.ip with
  | error e => rfl
  | ok info =>
      cases hip : info.contains key.ip with
      | true => simp [hip]
      | false => simp [hip]

theorem rowsSettled (hrest : space.AtRest thread world target procs)
    (h : Resting space thread world target procs walk) : RowsSettled space walk := by
  intro after hafter ws info ip predicates
  rw [h.thread_eq] at hafter ⊢
  rw [h.unchecked, hrest.target_eq (h.reached.trans hafter), hrest.target_eq h.reached]
  exact rowIn_answer target target.loadReg target.loadFpReg ws info ip predicates

/-- A search that keeps the cache right leaves the walk at rest. -/
theorem searched (h : Resting space thread world target procs walk) {after : Walk World Thread}
    (hsearched : Searched space walk after)
    (htrusted : after.unwinder.Trusted fun entry =>
      rulesAt target procs entry.key = .ok (entry.script, entry.info)) :
    Resting space thread world target procs after := by
  obtain ⟨hint, workspace, hcursor⟩ := hsearched.cursor
  have hworld := hsearched.world
  rw [h.thread_eq] at hworld
  refine ⟨?_, ?_, h.reached.trans hworld, hsearched.registry.trans h.registry, htrusted⟩
  · rw [hcursor]
    exact h.thread_eq
  · rw [hcursor]
    exact h.unchecked

theorem frameRules (hrest : space.AtRest thread world target procs)
    (h : Resting space thread world target procs walk) :
    ((frameRules space).perform walk).1 = rulesAt target procs walk.key ∧
      Resting space thread world target procs ((frameRules space).perform walk).2 := by
  have hrules := h.rulesFor_eq hrest walk.key
  obtain ⟨hanswer, hused⟩ := frameRules_of_settled (h.rowsSettled hrest)
    (fun entry hentry hkey => by rw [hrules, ← hkey]; exact hentry)
    (fun script info hnew => by rw [← hrules]; exact hnew) h.trusted
  exact ⟨hanswer.trans hrules, h.searched (frameRules_searched walk) hused.trusted⟩

/-! ## Finding the caller -/

theorem unwindByRules (hrest : space.AtRest thread world target procs)
    (h : Resting space thread world target procs walk) :
    ((unwindByRules space).perform walk).1 = ruledAt target procs walk.cursor ∧
      Resting space thread world target procs ((unwindByRules space).perform walk).2 := by
  obtain ⟨hanswer, hafter⟩ := h.frameRules hrest
  have hsearched : Searched space walk ((Walk.frameRules space).perform walk).2 :=
    frameRules_searched walk
  unfold ruledAt
  change _ = rulesAt target procs ⟨walk.cursor.lookupIp, walk.cursor.predicates⟩ at hanswer
  rw [← hanswer]
  unfold Action.perform at hafter hsearched ⊢
  cases hrun : Walk.frameRules space walk with
  | error e between =>
      rw [hrun] at hafter
      rw [unwindByRules_of_failed hrun]
      exact ⟨rfl, hafter⟩
  | ok found between =>
      obtain ⟨script, info⟩ := found
      rw [hrun] at hafter hsearched
      obtain ⟨hint, workspace, hcursor⟩ := hsearched.cursor
      have hlocs : between.cursor.locs = walk.cursor.locs := by rw [hcursor]
      rw [unwindByRules_of_found hrun, hafter.target_eq hrest, hlocs]
      simp only [ok_bind]
      cases applyRules target walk.cursor.locs script.cfa script.rules with
      | error e => exact ⟨rfl, hafter⟩
      | ok applied => exact ⟨rfl, hafter⟩

theorem unwindFrame (hrest : space.AtRest thread world target procs)
    (h : Resting space thread world target procs walk)
    (hquiet : Heuristic.SignalFrame.layoutAt target walk.cursor.ip = none) :
    ((unwindFrame space).perform walk).1 = unwoundAt target procs walk.cursor ∧
      Resting space thread world target procs ((unwindFrame space).perform walk).2 := by
  have hsignal : Heuristic.SignalFrame.step (walk.target space) walk.cursor.frame = .ok none := by
    rw [h.target_eq hrest]
    unfold Heuristic.SignalFrame.step
    rw [show walk.cursor.frame.ip = walk.cursor.ip from rfl, hquiet]
    rfl
  obtain ⟨hanswer, hafter⟩ := h.unwindByRules hrest
  unfold unwoundAt
  rw [← hanswer]
  unfold Action.perform at *
  cases hrun : Walk.unwindByRules space walk with
  | ok unwound between =>
      rw [hrun] at hafter
      rw [unwindFrame_of_rules hsignal hrun]
      exact ⟨rfl, hafter⟩
  | error e between =>
      rw [hrun] at hafter
      rw [unwindFrame_of_rules_failed hsignal hrun, hafter.target_eq hrest,
        frame_of_unwindByRules_error hrun]
      dsimp only
      generalize (if e.allowsFallback then _ else _ : Except UnwindError Unwound) = answer
      cases answer with
      | error e' => exact ⟨rfl, hafter⟩
      | ok unwound => exact ⟨rfl, hafter⟩

theorem step (hrest : space.AtRest thread world target procs)
    (h : Resting space thread world target procs walk)
    (hquiet : Heuristic.SignalFrame.layoutAt target walk.cursor.ip = none)
    {unwound : Unwound} {ip : UInt64}
    (hfound : unwoundAt target procs walk.cursor = .ok unwound)
    (hip : callerIp target walk.cursor unwound = .ok (some ip)) :
    ∃ after hint workspace, step space walk = .ok true after ∧
      Resting space thread world target procs after ∧
      after.cursor =
        { commit target.arch walk.cursor unwound ip with hint := hint, workspace := workspace } := by
  obtain ⟨hanswer, hafter⟩ := h.unwindFrame hrest hquiet
  have hsearched : Searched space walk ((Walk.unwindFrame space).perform walk).2 :=
    unwindFrame_searched walk
  rw [hfound] at hanswer
  unfold Action.perform at hanswer hafter hsearched
  cases hrun : Walk.unwindFrame space walk with
  | error e between =>
      rw [hrun] at hanswer
      cases hanswer
  | ok found between =>
      rw [hrun] at hanswer hafter hsearched
      obtain rfl := Except.ok.inj hanswer
      obtain ⟨hint, workspace, hsame⟩ := hsearched.cursor
      have hcursor : between.cursor =
          { walk.cursor with hint := hint, workspace := workspace } := hsame
      have hcaller : callerIp (between.target space) between.cursor found = .ok (some ip) := by
        rw [hafter.target_eq hrest, hcursor]
        exact hip
      have harch : space.arch = target.arch := by rw [← hrest.target_eq .refl]; rfl
      refine ⟨_, hint, workspace, step_of_callerIp hrun hcaller, ?_, ?_⟩
      · exact ⟨hafter.thread_eq, hafter.unchecked, hafter.reached, hafter.registry, hafter.trusted⟩
      · change commit space.arch between.cursor found ip = _
        rw [harch, hcursor]
        rfl

end Resting
end Walk
end StackWalk
