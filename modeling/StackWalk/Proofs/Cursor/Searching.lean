import Mathlib.Logic.Relation
import Mathlib.Tactic
import StackWalk.Cursor
import StackWalk.Proofs.Action

/-!
# Looking for the caller

On the way to the caller's frame the address space is asked for procedures,
which are given back, and the cursor's cache hint and workspace are used.
Nothing else happens to the world, to the registered regions or to the cursor,
however the search ends.
-/

namespace StackWalk

variable {World Thread : Type}

/-- One question of a thread to the address space, or one procedure given
back. -/
inductive AddressSpace.Consults (space : AddressSpace World Thread) (thread : Thread) :
    World → World → Prop
  | find (world : World) (ip : UInt64) :
      Consults space thread world (space.findProc world thread ip).world
  | release (world : World) (info : ProcInfo) :
      Consults space thread world (space.releaseProc world thread info)

namespace Walk

/-- What a search for the caller may leave behind. -/
structure Searched (space : AddressSpace World Thread) (before after : Walk World Thread) :
    Prop where
  world :
    Relation.ReflTransGen (space.Consults before.cursor.thread) before.world after.world
  registry : after.unwinder.registry = before.unwinder.registry
  uncached : before.unwinder.cache = none → after.unwinder.cache = none
  cursor : ∃ hint workspace,
    after.cursor = { before.cursor with hint := hint, workspace := workspace }

variable {space : AddressSpace World Thread}

theorem Searched.thread {before after : Walk World Thread}
    (h : Searched space before after) : after.cursor.thread = before.cursor.thread := by
  obtain ⟨hint, workspace, hcursor⟩ := h.cursor
  rw [hcursor]

instance : IsPreorder (Walk World Thread) (Searched space) where
  refl walk := ⟨.refl, rfl, id, walk.cursor.hint, walk.cursor.workspace, rfl⟩
  trans first second third h₁ h₂ := by
    refine ⟨?_, h₂.registry.trans h₁.registry, fun h => h₂.uncached (h₁.uncached h), ?_⟩
    · have hworld := h₂.world
      rw [h₁.thread] at hworld
      exact h₁.world.trans hworld
    · obtain ⟨hint₁, workspace₁, hcursor₁⟩ := h₁.cursor
      obtain ⟨hint₂, workspace₂, hcursor₂⟩ := h₂.cursor
      exact ⟨hint₂, workspace₂, by rw [hcursor₂, hcursor₁]⟩

/-! ## The unwinder and its cache -/

theorem lookupScript_changes (unwinder : Unwinder) (key : CacheKey) (hint : Option Nat) :
    ∃ cache, (unwinder.lookupScript key hint).2 = { unwinder with cache := cache } := by
  unfold Unwinder.lookupScript
  cases unwinder.cache with
  | none => exact ⟨unwinder.cache, rfl⟩
  | some cache => exact ⟨_, rfl⟩

theorem storeScript_changes (unwinder : Unwinder) (generation : UInt64) (key : CacheKey)
    (script : Script) (info : ProcInfo) :
    ∃ cache, (unwinder.storeScript generation key script info).2 =
      { unwinder with cache := cache } := by
  unfold Unwinder.storeScript
  split
  · cases unwinder.cache with
    | none => exact ⟨unwinder.cache, rfl⟩
    | some cache => exact ⟨_, rfl⟩
  · exact ⟨unwinder.cache, rfl⟩

theorem lookupScript_of_uncached {unwinder : Unwinder} (h : unwinder.cache = none)
    (key : CacheKey) (hint : Option Nat) : unwinder.lookupScript key hint = (none, unwinder) := by
  unfold Unwinder.lookupScript
  rw [h]

theorem storeScript_of_uncached {unwinder : Unwinder} (h : unwinder.cache = none)
    (generation : UInt64) (key : CacheKey) (script : Script) (info : ProcInfo) :
    unwinder.storeScript generation key script info = (none, unwinder) := by
  unfold Unwinder.storeScript
  rw [h]
  exact ite_self _

/-! ## The parts of a search -/

theorem release_searched (info : ProcInfo) :
    (release space info : Action (Walk World Thread) Unit).Keeps (Searched space) := by
  apply Action.Keeps.of_modify
  intro walk
  exact ⟨.single (.release _ info), rfl, id, walk.cursor.hint, walk.cursor.workspace, rfl⟩

theorem findInSpace_searched (ip : UInt64) :
    (findInSpace space ip).Keeps (Searched space) := by
  apply Action.Keeps.get_bind
  intro walk
  have h : Searched space walk
      { walk with
        world := (space.findProc walk.world walk.cursor.thread ip).world
        unwinder := walk.unwinder.bumpTimes
          (space.findProc walk.world walk.cursor.thread ip).changes } :=
    ⟨.single (.find _ ip), rfl, id, walk.cursor.hint, walk.cursor.workspace, rfl⟩
  unfold Action.perform
  rw [Action.set_bind_apply]
  cases (space.findProc walk.world walk.cursor.thread ip).answer <;> exact h

theorem findProc_searched (ip : UInt64) : (findProc space ip).Keeps (Searched space) := by
  apply Action.Keeps.get_bind
  intro walk
  cases walk.unwinder.registry.find? ip with
  | some region => exact refl_of _ walk
  | none =>
      refine Action.Keeps.bind (findInSpace_searched ip) (fun info => ?_) walk
      cases info.contains ip with
      | true => exact .pure _
      | false => exact .bind (release_searched info) fun _ => .throw _

theorem buildRow_searched (info : ProcInfo) (ip : UInt64) :
    (buildRow space info ip).Keeps (Searched space) := by
  apply Action.Keeps.get_bind
  intro walk
  exact ⟨.refl, rfl, id, walk.cursor.hint, _, rfl⟩

/-- The last part of computing rules: they are kept if they fit. -/
def keepRules (generation : UInt64) (key : CacheKey) (info : ProcInfo)
    (row : Except UnwindError Row) : Action (Walk World Thread) (Script × ProcInfo) := do
  let row ← row
  match Script.compile row with
  | none =>
      return (row.toScript, info)
  | some script =>
      let walk ← get
      let (slot, unwinder) := walk.unwinder.storeScript generation key script info
      set { walk with
        unwinder := unwinder
        cursor := { walk.cursor with hint := slot.or walk.cursor.hint } }
      return (script, info)

theorem freshRules_eq (generation : UInt64) (key : CacheKey) :
    freshRules space generation key = (do
      let (info, provided) ← findProc space key.ip
      let row ← buildRow space info key.ip
      if provided then
        release space info
      keepRules generation key info row) :=
  rfl

theorem keepRules_of_none {generation : UInt64} {key : CacheKey} {info : ProcInfo} {row : Row}
    (h : Script.compile row = none) (walk : Walk World Thread) :
    keepRules generation key info (.ok row) walk = .ok (row.toScript, info) walk := by
  unfold keepRules
  rw [Action.lift_ok_bind_apply, h]
  rfl

theorem keepRules_of_some {generation : UInt64} {key : CacheKey} {info : ProcInfo} {row : Row}
    {script : Script} (h : Script.compile row = some script) (walk : Walk World Thread) :
    keepRules generation key info (.ok row) walk =
      .ok (script, info)
        { walk with
          unwinder := (walk.unwinder.storeScript generation key script info).2
          cursor := { walk.cursor with
            hint := (walk.unwinder.storeScript generation key script info).1.or
              walk.cursor.hint } } := by
  unfold keepRules
  rw [Action.lift_ok_bind_apply, h]
  rfl

theorem keepRules_searched (generation : UInt64) (key : CacheKey) (info : ProcInfo)
    (row : Except UnwindError Row) :
    (keepRules generation key info row).Keeps (Searched space) := by
  intro walk
  unfold Action.perform
  cases row with
  | error e => exact refl_of _ walk
  | ok row =>
      cases hscript : Script.compile row with
      | none =>
          rw [keepRules_of_none hscript]
          exact refl_of _ walk
      | some script =>
          rw [keepRules_of_some hscript]
          obtain ⟨cache, hstored⟩ :=
            storeScript_changes walk.unwinder generation key script info
          have hregistry := congrArg (·.registry) hstored
          refine ⟨.refl, hregistry, ?_, _, walk.cursor.workspace, rfl⟩
          intro huncached
          exact (congrArg (·.2.cache) (storeScript_of_uncached huncached ..)).trans huncached

theorem freshRules_searched (generation : UInt64) (key : CacheKey) :
    (freshRules space generation key).Keeps (Searched space) := by
  rw [freshRules_eq]
  refine .bind (findProc_searched key.ip) fun ⟨info, provided⟩ => ?_
  refine .bind (buildRow_searched info key.ip) fun row => ?_
  cases provided with
  | false => exact keepRules_searched generation key info row
  | true =>
      exact .bind (release_searched info) fun _ => keepRules_searched generation key info row

/-- The key of the frame's rules. -/
def key (walk : Walk World Thread) : CacheKey :=
  ⟨walk.cursor.lookupIp, walk.cursor.predicates⟩

/-- What looking the frame's rules up finds, and the unwinder after it. -/
def looked (walk : Walk World Thread) : Option (Nat × CacheEntry) × Unwinder :=
  walk.unwinder.lookupScript walk.key walk.cursor.hint

theorem looked_changes (walk : Walk World Thread) :
    walk.looked.2.registry = walk.unwinder.registry ∧
      walk.looked.2.generation = walk.unwinder.generation := by
  obtain ⟨cache, hlooked⟩ := lookupScript_changes walk.unwinder walk.key walk.cursor.hint
  unfold looked
  rw [hlooked]
  exact ⟨rfl, rfl⟩

theorem frameRules_cases (space : AddressSpace World Thread) (walk : Walk World Thread) :
    (∃ slot entry, walk.looked.1 = some (slot, entry) ∧
      frameRules space walk = .ok (entry.script, entry.info)
        { walk with
          unwinder := walk.looked.2
          cursor := { walk.cursor with hint := some slot } }) ∨
    frameRules space walk = freshRules space walk.looked.2.generation walk.key
      { walk with unwinder := walk.looked.2 } := by
  unfold frameRules looked key
  simp only [Action.get_bind_apply]
  cases (walk.unwinder.lookupScript ⟨walk.cursor.lookupIp, walk.cursor.predicates⟩
      walk.cursor.hint).1 with
  | some hit => exact Or.inl ⟨hit.1, hit.2, rfl, rfl⟩
  | none => exact Or.inr rfl

theorem frameRules_searched : (frameRules space).Keeps (Searched space) := by
  intro walk
  have hregistry := walk.looked_changes.1
  have huncached : walk.unwinder.cache = none → walk.looked.2.cache = none := by
    intro h
    unfold looked
    rw [lookupScript_of_uncached h]
    exact h
  unfold Action.perform
  rcases frameRules_cases space walk with ⟨slot, entry, -, hrun⟩ | hrun
  · rw [hrun]
    exact ⟨.refl, hregistry, huncached, some slot, walk.cursor.workspace, rfl⟩
  · rw [hrun]
    have hmissed : Searched space walk { walk with unwinder := walk.looked.2 } :=
      ⟨.refl, hregistry, huncached, walk.cursor.hint, walk.cursor.workspace, rfl⟩
    exact trans_of _ hmissed (freshRules_searched walk.looked.2.generation walk.key _)

/-! ## What the rules of a frame keep -/

section Keeps

variable {R : Walk World Thread → Walk World Thread → Prop} [IsPreorder (Walk World Thread) R]

theorem unwindByRules_keeps (hrules : (frameRules space).Keeps R) :
    (unwindByRules space).Keeps R := by
  refine .bind hrules fun ⟨script, info⟩ => ?_
  apply Action.Keeps.get_bind
  intro walk
  exact Action.Keeps.bind (.lift _) (fun _ => .pure _) walk

theorem unwindFrame_keeps (hrules : (frameRules space).Keeps R) :
    (unwindFrame space).Keeps R := by
  apply Action.Keeps.get_bind
  intro walk
  refine Action.Keeps.bind (.lift _) (fun found => ?_) walk
  cases found with
  | some unwound => exact .pure unwound
  | none =>
      refine .bind (.attempt (unwindByRules_keeps hrules)) fun outcome => ?_
      cases outcome with
      | ok unwound => exact .pure unwound
      | error e =>
          dsimp only
          split
          · apply Action.Keeps.get_bind
            intro walk
            exact Action.Keeps.lift _ walk
          · exact .throw e

theorem argsSize_keeps (hrules : (frameRules space).Keeps R) : (argsSize space).Keeps R :=
  .bind hrules fun _ => .pure _

theorem isSignalFrame_keeps (hrules : (frameRules space).Keeps R) :
    (isSignalFrame space).Keeps R := by
  apply Action.Keeps.get_bind
  intro walk
  split
  · exact refl_of _ walk
  · refine Action.Keeps.bind (.attempt hrules) (fun outcome => ?_) walk
    cases outcome with
    | ok rules => exact .pure _
    | error e => exact .pure false

end Keeps

theorem unwindByRules_searched : (unwindByRules space).Keeps (Searched space) :=
  unwindByRules_keeps frameRules_searched

theorem unwindFrame_searched : (unwindFrame space).Keeps (Searched space) :=
  unwindFrame_keeps frameRules_searched

theorem argsSize_searched : (argsSize space).Keeps (Searched space) :=
  argsSize_keeps frameRules_searched

theorem isSignalFrame_searched : (isSignalFrame space).Keeps (Searched space) :=
  isSignalFrame_keeps frameRules_searched

end Walk
end StackWalk
