import StackWalk.Proofs.Cursor.CacheUse

/-!
# Walks that agree

Two walks that differ in their caches, hints and workspaces only, and whose
caches may be trusted, agree in all they answer: the rules of a frame are those
of its key for both, and nothing else is asked of the unwinder.
-/

namespace StackWalk

variable {World Thread Epoch : Type}

/-- The cursor without what it keeps to be faster. -/
def Cursor.bare (cursor : Cursor Thread) : Cursor Thread :=
  { cursor with hint := none, workspace := .empty }

theorem Cursor.eq_of_bare {α : Type} {first second : Cursor Thread}
    (h : first.bare = second.bare) (f : Cursor Thread → α)
    (hf : ∀ cursor, f cursor.bare = f cursor) : f first = f second := by
  rw [← hf first, h, hf]

/-- An entry has the rules of its key, for all threads. -/
def AddressSpace.Confirms (space : AddressSpace World Thread) (registry : Registry)
    (world : World) (entry : CacheEntry) : Prop :=
  ∀ thread, Walk.rulesFor space registry world thread entry.key = .ok (entry.script, entry.info)

namespace Walk

variable {space : AddressSpace World Thread} {epoch : World → Epoch}

/-- The walk's cache has no other rules than those of their keys. -/
def Trusts (space : AddressSpace World Thread) (walk : Walk World Thread) : Prop :=
  walk.unwinder.Trusted (space.Confirms walk.unwinder.registry walk.world)

theorem confirms_iff (h : space.AnswersBy epoch) (registry : Registry) {first second : World}
    (hepoch : epoch first = epoch second) (entry : CacheEntry) :
    space.Confirms registry first entry ↔ space.Confirms registry second entry := by
  unfold AddressSpace.Confirms
  constructor
  · intro hfirst thread
    rw [← rulesFor_eq h registry hepoch thread thread]
    exact hfirst thread
  · intro hsecond thread
    rw [rulesFor_eq h registry hepoch thread thread]
    exact hsecond thread

/-! ## The rules of the frame -/

/-- The rules of a frame are those of its key.  Whatever the cache has after
they were asked for is of the generation in which they were. -/
theorem frameRules_of_settled {walk : Walk World Thread} {right : CacheEntry → Prop}
    (hsettled : RowsSettled space walk)
    (hright : ∀ entry, right entry → entry.key = walk.key →
      rulesFor space walk.unwinder.registry walk.world walk.cursor.thread walk.key =
        .ok (entry.script, entry.info))
    (hnew : ∀ script info,
      rulesFor space walk.unwinder.registry walk.world walk.cursor.thread walk.key =
        .ok (script, info) → right ⟨walk.key, script, info⟩)
    (htrusted : walk.unwinder.Trusted right) :
    let outcome := (frameRules space).perform walk
    outcome.1 = rulesFor space walk.unwinder.registry walk.world walk.cursor.thread walk.key ∧
      outcome.2.unwinder.UsedIn walk.unwinder.generation right := by
  have hlooked : RowsSettled space { walk with unwinder := walk.looked.2 } := hsettled
  have hanswer := freshRules_answer hlooked walk.unwinder.generation walk.key rfl
  rw [walk.looked_changes.1] at hanswer
  have hfresh : ∀ script info,
      ((freshRules space walk.unwinder.generation walk.key).perform
        { walk with unwinder := walk.looked.2 }).1 = .ok (script, info) →
          right ⟨walk.key, script, info⟩ := by
    intro script info hcomputed
    exact hnew script info (hanswer.symm.trans hcomputed)
  obtain ⟨hrules, hused⟩ := frameRules_of_trusted hfresh htrusted
  refine ⟨?_, hused⟩
  rcases hrules with ⟨entry, hentry, hkey, hhit⟩ | hmiss
  · -- a hit was confirmed in the generation that is current
    exact hhit.trans (hright entry hentry hkey).symm
  · exact hmiss.trans hanswer

theorem frameRules_outcome (h : space.AnswersBy epoch) {walk : Walk World Thread}
    (htrusts : walk.Trusts space) :
    let outcome := (frameRules space).perform walk
    outcome.1 = rulesFor space walk.unwinder.registry walk.world walk.cursor.thread walk.key ∧
      outcome.2.unwinder.UsedIn walk.unwinder.generation
        (space.Confirms walk.unwinder.registry walk.world) := by
  refine frameRules_of_settled (rowsSettled_of_answersBy h walk) ?_ ?_ htrusts
  · intro entry hentry hkey
    rw [← hkey]
    exact hentry walk.cursor.thread
  · -- what is kept is what was computed, and that is the same for all threads
    intro script info hrules thread
    rw [← hrules]
    exact rulesFor_eq h walk.unwinder.registry rfl thread walk.cursor.thread walk.key

/-! ## Walks at the same frame -/

/-- Two walks at the same frame, in the same epoch and with the same regions,
whose caches may be trusted. -/
structure Alike (space : AddressSpace World Thread) (epoch : World → Epoch)
    (first second : Walk World Thread) : Prop where
  registry : first.unwinder.registry = second.unwinder.registry
  epoch : epoch first.world = epoch second.world
  cursor : first.cursor.bare = second.cursor.bare
  left : first.Trusts space
  right : second.Trusts space

variable {first second : Walk World Thread}

theorem Alike.target_eq (h : space.AnswersBy epoch) (halike : Alike space epoch first second) :
    first.target space = second.target space := by
  have hthread := Cursor.eq_of_bare halike.cursor (·.thread) fun _ => rfl
  have hvalidate := Cursor.eq_of_bare halike.cursor (·.validate) fun _ => rfl
  unfold Walk.target
  rw [hthread, hvalidate]
  exact Walk.target_eq h halike.epoch _ _

theorem Alike.frame_eq (halike : Alike space epoch first second) :
    first.cursor.frame = second.cursor.frame :=
  Cursor.eq_of_bare halike.cursor (·.frame) fun _ => rfl

/-- A search leaves alike walks alike if their caches may still be trusted. -/
theorem Alike.searched (h : space.AnswersBy epoch) (halike : Alike space epoch first second)
    {after after' : Walk World Thread} (hfirst : Searched space first after)
    (hsecond : Searched space second after') (hleft : after.Trusts space)
    (hright : after'.Trusts space) : Alike space epoch after after' := by
  refine ⟨?_, ?_, ?_, hleft, hright⟩
  · rw [hfirst.registry, hsecond.registry, halike.registry]
  · rw [hfirst.epoch_eq h, hsecond.epoch_eq h, halike.epoch]
  · obtain ⟨hint, workspace, hcursor⟩ := hfirst.cursor
    obtain ⟨hint', workspace', hcursor'⟩ := hsecond.cursor
    rw [hcursor, hcursor']
    exact halike.cursor

theorem trusts_of_used (h : space.AnswersBy epoch) {walk after : Walk World Thread}
    {generation : UInt64} (hsearched : Searched space walk after)
    (hused : after.unwinder.UsedIn generation
      (space.Confirms walk.unwinder.registry walk.world)) : after.Trusts space := by
  intro cache hcache
  refine (hused.trusted cache hcache).mono fun entry hentry => ?_
  rw [hsearched.registry]
  exact (confirms_iff h _ (hsearched.epoch_eq h) entry).mpr hentry

theorem frameRules_respects (h : space.AnswersBy epoch) :
    (frameRules space).Respects (Alike space epoch) := by
  intro first second halike
  obtain ⟨hfirst, hleft⟩ := frameRules_outcome h halike.left
  obtain ⟨hsecond, hright⟩ := frameRules_outcome h halike.right
  have hsearched : Searched space first ((frameRules space).perform first).2 :=
    frameRules_searched first
  have hsearched' : Searched space second ((frameRules space).perform second).2 :=
    frameRules_searched second
  have hkey : first.key = second.key :=
    Cursor.eq_of_bare halike.cursor
      (fun cursor => (⟨cursor.lookupIp, cursor.predicates⟩ : CacheKey)) fun _ => rfl
  constructor
  · rw [hfirst, hsecond, halike.registry, hkey]
    exact rulesFor_eq h _ halike.epoch _ _ _
  · exact halike.searched h hsearched hsearched' (trusts_of_used h hsearched hleft)
      (trusts_of_used h hsearched' hright)

theorem unwindByRules_respects (h : space.AnswersBy epoch) :
    (unwindByRules space).Respects (Alike space epoch) := by
  refine .bind (frameRules_respects h) fun ⟨script, info⟩ => ?_
  refine .get_bind ?_ fun walk => .bind (.lift _) fun _ => .pure _
  intro first second halike
  have hlocs := Cursor.eq_of_bare halike.cursor (·.locs) fun _ => rfl
  rw [halike.target_eq h, hlocs]

theorem unwindFrame_respects (h : space.AnswersBy epoch) :
    (unwindFrame space).Respects (Alike space epoch) := by
  refine .get_bind ?_ fun walk => .bind (.lift _) fun found => ?_
  · intro first second halike
    rw [halike.target_eq h, halike.frame_eq]
  · cases found with
    | some unwound => exact .pure unwound
    | none =>
        refine .bind (.attempt (unwindByRules_respects h)) fun outcome => ?_
        cases outcome with
        | ok unwound => exact .pure unwound
        | error e =>
            dsimp only
            split
            · refine .get_bind ?_ fun walk => .lift _
              intro first second halike
              rw [halike.target_eq h, halike.frame_eq]
            · exact .throw e

/-- Changing what two alike cursors share leaves them alike. -/
theorem modifyCursor_respects {change : Cursor Thread → Cursor Thread}
    (hchange : ∀ first second, first.bare = second.bare →
      (change first).bare = (change second).bare) :
    (modifyCursor change : Action (Walk World Thread) Unit).Respects (Alike space epoch) := by
  apply Action.Respects.of_modify
  intro first second halike
  exact ⟨halike.registry, halike.epoch, hchange _ _ halike.cursor, halike.left, halike.right⟩

theorem step_respects (h : space.AnswersBy epoch) :
    (step space).Respects (Alike space epoch) := by
  refine .bind (.attempt (unwindFrame_respects h)) fun outcome => ?_
  split
  · exact .pure false
  · exact .throw _
  · rename_i unwound
    refine .get_bind ?_ fun walk => .bind (.lift _) fun caller => ?_
    · intro first second halike
      rw [halike.target_eq h]
      have hcaller := Cursor.eq_of_bare halike.cursor
        (callerIp (second.target space) · unwound) fun _ => rfl
      rw [hcaller]
    · cases caller with
      | none => exact .pure false
      | some ip =>
          refine .bind (modifyCursor_respects ?_) fun _ => .pure true
          intro first second hbare
          exact congrArg (commit space.arch · unwound ip) hbare

theorem argsSize_respects (h : space.AnswersBy epoch) :
    (argsSize space).Respects (Alike space epoch) :=
  .bind (frameRules_respects h) fun _ => .pure _

theorem isSignalFrame_respects (h : space.AnswersBy epoch) :
    (isSignalFrame space).Respects (Alike space epoch) := by
  refine .get_bind ?_ fun walk => ?_
  · intro first second halike
    have hip := Cursor.eq_of_bare halike.cursor (·.ip) fun _ => rfl
    rw [halike.target_eq h, hip]
  · split
    · exact .pure true
    · refine .bind (.attempt (frameRules_respects h)) fun outcome => ?_
      cases outcome with
      | ok rules => exact .pure _
      | error e => exact .pure false

end Walk
end StackWalk
