import StackWalk.Proofs.Cache.Trusted
import StackWalk.Proofs.Cursor.Rules

/-!
# How the cache is used

A cursor needs the rules of one frame at most to answer.  So the cache is
looked at once, what is kept is of the generation in which that happened, and
the address space is asked for one procedure, which is the only thing that may
begin another generation meanwhile.
-/

namespace StackWalk

variable {World Thread : Type}

/-- The generation is a few further. -/
def Unwinder.Bumped (limit : Nat) (before after : Unwinder) : Prop :=
  ∃ count ≤ limit, after.generation = before.generation + UInt64.ofNat count

theorem Unwinder.Bumped.toNat_eq {limit : Nat} {before after : Unwinder}
    (h : before.Bumped limit after) (hfits : before.generation.toNat + limit < 2 ^ 64) :
    ∃ count ≤ limit, after.generation.toNat = before.generation.toNat + count := by
  obtain ⟨count, hcount, hafter⟩ := h
  have hsmall : count < 2 ^ 64 := by omega
  refine ⟨count, hcount, ?_⟩
  rw [hafter, UInt64.toNat_add, UInt64.toNat_ofNat_of_lt' hsmall]
  exact Nat.mod_eq_of_lt (by omega)

namespace Walk

variable {space : AddressSpace World Thread}

/-! ## How often the cache is used -/

/-- The unwinder was not used, or used for the rules of the frame once. -/
def AsksOnce (space : AddressSpace World Thread) (before after : Walk World Thread) : Prop :=
  after.unwinder = before.unwinder ∨
    after.unwinder = ((frameRules space).perform before).2.unwinder

/-- The unwinder was not used. -/
def AsksNothing (before after : Walk World Thread) : Prop :=
  after.unwinder = before.unwinder

instance : IsPreorder (Walk World Thread) AsksNothing where
  refl _ := rfl
  trans _ _ _ h₁ h₂ := Eq.trans h₂ h₁

theorem AsksOnce.refl (walk : Walk World Thread) : AsksOnce space walk walk :=
  Or.inl rfl

theorem frameRules_asksOnce : (frameRules space).Keeps (AsksOnce space) :=
  fun _ => Or.inr rfl

theorem asksOnce_bind {α β : Type} {action : Action (Walk World Thread) α}
    {f : α → Action (Walk World Thread) β} (haction : action.Keeps (AsksOnce space))
    (hf : ∀ a, (f a).Keeps AsksNothing) : (action >>= f).Keeps (AsksOnce space) := by
  refine haction.seq hf (fun _ _ h => h) ?_
  intro first second third honce hnothing
  exact honce.imp (Eq.trans hnothing) (Eq.trans hnothing)

theorem unwindByRules_asksOnce : (unwindByRules space).Keeps (AsksOnce space) := by
  refine asksOnce_bind frameRules_asksOnce fun ⟨script, info⟩ => ?_
  apply Action.Keeps.get_bind
  intro walk
  exact Action.Keeps.bind (.lift _) (fun _ => .pure _) walk

theorem unwindFrame_asksOnce : (unwindFrame space).Keeps (AsksOnce space) := by
  apply Action.Keeps.get_bind
  intro walk
  refine Action.Keeps.lift_bind AsksOnce.refl (fun found => ?_) walk
  cases found with
  | some unwound => exact AsksOnce.refl
  | none =>
      refine asksOnce_bind (.attempt unwindByRules_asksOnce) fun outcome => ?_
      cases outcome with
      | ok unwound => exact .pure unwound
      | error e =>
          dsimp only
          split
          · apply Action.Keeps.get_bind
            intro walk
            exact Action.Keeps.lift _ walk
          · exact .throw e

theorem step_asksOnce : (step space).Keeps (AsksOnce space) := by
  refine asksOnce_bind (.attempt unwindFrame_asksOnce) fun outcome => ?_
  split
  · exact .pure false
  · exact .throw _
  · apply Action.Keeps.get_bind
    intro walk
    refine Action.Keeps.bind (.lift _) (fun caller => ?_) walk
    cases caller with
    | none => exact .pure false
    | some ip =>
        refine .bind (.of_modify fun walk => ?_) fun _ => .pure true
        rfl

theorem argsSize_asksOnce : (argsSize space).Keeps (AsksOnce space) :=
  asksOnce_bind frameRules_asksOnce fun _ => .pure _

theorem isSignalFrame_asksOnce : (isSignalFrame space).Keeps (AsksOnce space) := by
  apply Action.Keeps.get_bind
  intro walk
  split
  · exact AsksOnce.refl walk
  · refine asksOnce_bind (.attempt frameRules_asksOnce) (fun outcome => ?_) walk
    cases outcome with
    | ok rules => exact .pure _
    | error e => exact .pure false

/-! ## What is taken from the cache and kept in it -/

/-- The rules of a frame are rules that the cache has or fresh ones.  Whatever
the cache has after they were asked for is of the generation in which they
were. -/
theorem frameRules_of_trusted {walk : Walk World Thread} {right : CacheEntry → Prop}
    (hfresh : ∀ script info,
      ((freshRules space walk.unwinder.generation walk.key).perform
        { walk with unwinder := walk.looked.2 }).1 = .ok (script, info) →
          right ⟨walk.key, script, info⟩)
    (htrusted : walk.unwinder.Trusted right) :
    let outcome := (frameRules space).perform walk
    ((∃ entry, right entry ∧ entry.key = walk.key ∧
        outcome.1 = .ok (entry.script, entry.info)) ∨
      outcome.1 = ((freshRules space walk.unwinder.generation walk.key).perform
        { walk with unwinder := walk.looked.2 }).1) ∧
      outcome.2.unwinder.UsedIn walk.unwinder.generation right := by
  have hgeneration := walk.looked_changes.2
  obtain ⟨hfound, hused⟩ := Unwinder.lookupScript_spec htrusted walk.key walk.cursor.hint
  unfold Action.perform
  rcases frameRules_cases space walk with ⟨slot, entry, hhit, hrun⟩ | hrun
  · obtain ⟨hkey, hentry⟩ := hfound slot entry hhit
    rw [hrun]
    exact ⟨Or.inl ⟨entry, hentry, hkey, rfl⟩, hused⟩
  · rw [hrun, hgeneration]
    refine ⟨Or.inr rfl, ?_⟩
    intro cache hcache
    rcases freshRules_kept hcache with hcache | ⟨before, script, info, hbefore, hrules, rfl⟩
    · exact hused cache hcache
    · obtain ⟨hsame, hsynced⟩ := (hused before hbefore).2.sync
      exact hsynced.insert hsame (hfresh script info hrules)

/-! ## How far the generation counts -/

theorem findProc_bumped {limit : Nat}
    (hlimit : ∀ world thread ip, (space.findProc world thread ip).changes ≤ limit)
    (ip : UInt64) :
    (findProc space ip).Keeps fun before after =>
      before.unwinder.Bumped limit after.unwinder := by
  intro walk
  unfold Action.perform
  cases hregion : walk.unwinder.registry.find? ip with
  | some region =>
      rw [findProc_of_region hregion]
      exact ⟨0, Nat.zero_le limit, (UInt64.add_zero _).symm⟩
  | none =>
      have hasked : walk.unwinder.Bumped limit (asked space walk ip).unwinder :=
        ⟨_, hlimit walk.world walk.cursor.thread ip, rfl⟩
      rw [findProc_of_no_region hregion]
      cases (space.findProc walk.world walk.cursor.thread ip).answer with
      | error e => exact hasked
      | ok info =>
          by_cases hip : info.contains ip = true
          · simp only [if_pos hip]
            exact hasked
          · simp only [if_neg hip]
            exact hasked

/-- The generation is the same. -/
def SameGeneration (before after : Walk World Thread) : Prop :=
  after.unwinder.generation = before.unwinder.generation

instance : IsPreorder (Walk World Thread) SameGeneration where
  refl _ := rfl
  trans _ _ _ h₁ h₂ := Eq.trans h₂ h₁

theorem keepRules_generation (generation : UInt64) (key : CacheKey) (info : ProcInfo)
    (row : Except UnwindError Row) :
    (keepRules generation key info row : Action (Walk World Thread) _).Keeps SameGeneration := by
  intro walk
  unfold Action.perform
  cases row with
  | error e => rfl
  | ok row =>
      cases hscript : Script.compile row with
      | none =>
          rw [keepRules_of_none hscript]
          rfl
      | some script =>
          obtain ⟨cache, hstored⟩ :=
            storeScript_changes walk.unwinder generation key script info
          rw [keepRules_of_some hscript]
          have hgeneration := congrArg (·.generation) hstored
          exact hgeneration

theorem freshRules_bumped {limit : Nat}
    (hlimit : ∀ world thread ip, (space.findProc world thread ip).changes ≤ limit)
    (generation : UInt64) (key : CacheKey) :
    (freshRules space generation key).Keeps fun before after =>
      before.unwinder.Bumped limit after.unwinder := by
  have hrest : ∀ answer : ProcInfo × Bool, Action.Keeps SameGeneration (do
      let row ← buildRow space answer.1 key.ip
      if answer.2 then
        release space answer.1
      keepRules generation key answer.1 row) := by
    intro ⟨info, provided⟩
    refine .bind (fun _ => rfl) fun row => ?_
    cases provided with
    | false => exact keepRules_generation generation key info row
    | true => exact .bind (fun _ => rfl) fun _ => keepRules_generation generation key info row
  rw [freshRules_eq]
  refine (findProc_bumped hlimit key.ip).seq hrest (fun _ _ h => h) ?_
  rintro first second third ⟨count, hcount, hbumped⟩ hsame
  exact ⟨count, hcount, hsame.trans hbumped⟩

/-- Asking for the rules of a frame is one lookup at most. -/
theorem frameRules_bumped {limit : Nat}
    (hlimit : ∀ world thread ip, (space.findProc world thread ip).changes ≤ limit)
    (walk : Walk World Thread) :
    walk.unwinder.Bumped limit ((frameRules space).perform walk).2.unwinder := by
  have hgeneration := walk.looked_changes.2
  unfold Action.perform
  rcases frameRules_cases space walk with ⟨slot, entry, -, hrun⟩ | hrun
  · rw [hrun]
    exact ⟨0, Nat.zero_le limit, hgeneration.trans (UInt64.add_zero _).symm⟩
  · rw [hrun]
    obtain ⟨count, hcount, hbumped⟩ := freshRules_bumped hlimit walk.looked.2.generation walk.key
      { walk with unwinder := walk.looked.2 }
    exact ⟨count, hcount, hbumped.trans (congrArg (· + UInt64.ofNat count) hgeneration)⟩

end Walk
end StackWalk
