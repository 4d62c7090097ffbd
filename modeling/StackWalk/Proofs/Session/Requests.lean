import StackWalk.Proofs.Cursor.CacheUse
import StackWalk.Session

/-!
# Runs of a session

A client opens cursors, moves them and changes what is known of the program, in
any order.  It sees how every request ends and where the cursors are after it.
-/

namespace StackWalk

/-- What a client sees of a cursor. -/
structure CursorView where
  ip : UInt64
  cfa : UInt64
  locs : Locations
  lastStep : Option StepMethod
  deriving DecidableEq, Repr

def Cursor.view {Thread : Type} (cursor : Cursor Thread) : CursorView where
  ip := cursor.ip
  cfa := cursor.cfa
  locs := cursor.locs
  lastStep := cursor.lastStep

/-- What a client can ask for. -/
inductive Request (World Thread : Type) where
  | openCursor (thread : Thread)
  | step (index : Nat)
  | argsSize (index : Nat)
  | isSignalFrame (index : Nat)
  | setPredicates (index : Nat) (predicates : Predicates)
  | setValidate (index : Nat) (validate : Bool)
  | registerRegion (region : Region)
  | unregisterRegion (start : UInt64)
  /-- The world has become another, and the unwinder is told. -/
  | bumpGeneration (world : World)

/-- How a request ends that does not fail.  Nothing is answered for a cursor
that does not exist. -/
inductive Answer where
  | done
  | moved (answer : Option Bool)
  | size (answer : Option UInt64)
  | signalFrame (answer : Option Bool)
  | region (answer : Option Region)
  deriving DecidableEq, Repr

namespace Session

variable {World Thread Epoch : Type}

/-- Serves a request. -/
def serve (space : AddressSpace World Thread) :
    Request World Thread → Action (Session World Thread) Answer
  | .openCursor thread => do
      let _ ← openCursor space thread
      return .done
  | .step index => do
      let answer ← onCursor index (Walk.step space)
      return .moved answer
  | .argsSize index => do
      let answer ← onCursor index (Walk.argsSize space)
      return .size answer
  | .isSignalFrame index => do
      let answer ← onCursor index (Walk.isSignalFrame space)
      return .signalFrame answer
  | .setPredicates index predicates => do
      let _ ← onCursor index <| Walk.modifyCursor fun cursor =>
        { cursor with predicates := predicates }
      return .done
  | .setValidate index validate => do
      let _ ← onCursor index <| Walk.modifyCursor fun cursor =>
        { cursor with validate := validate }
      return .done
  | .registerRegion region => do
      let session ← get
      let (region, unwinder) ← session.unwinder.registerRegion region
      set { session with unwinder := unwinder }
      return .region (some region)
  | .unregisterRegion start => do
      let session ← get
      match session.unwinder.unregisterRegion start with
      | some (region, unwinder) =>
          set { session with unwinder := unwinder }
          return .region (some region)
      | none =>
          return .region none
  | .bumpGeneration world => do
      let session ← get
      set { session with unwinder := session.unwinder.bumpGeneration, world := world }
      return .done

/-- What a client sees: how every request ends, and the cursors after it. -/
def observe (space : AddressSpace World Thread) (session : Session World Thread) :
    List (Request World Thread) → List (Except UnwindError Answer × List CursorView)
  | [] => []
  | request :: rest =>
      let (answer, after) := (serve space request).perform session
      (answer, after.cursors.toList.map Cursor.view) :: after.observe space rest

/-- While requests are served, the generation does not come round.  It has 64
bits; one that did would make scripts of long ago look current. -/
def CountsUp (space : AddressSpace World Thread) (session : Session World Thread) :
    List (Request World Thread) → Prop
  | [] => True
  | request :: rest =>
      let after := ((serve space request).perform session).2
      session.unwinder.generation ≤ after.unwinder.generation ∧ after.CountsUp space rest

/-- The session with other regions and in another world, in the next
generation. -/
def renewed (session : Session World Thread) (registry : Registry) (world : World) :
    Session World Thread :=
  { session with
    unwinder := { session.unwinder with registry := registry }.bumpGeneration
    world := world }

/-! ## Requests one by one -/

variable {space : AddressSpace World Thread} {session : Session World Thread}

theorem onCursor_of_none {α : Type} {index : Nat} (h : session.cursors[index]? = none)
    (action : Action (Walk World Thread) α) :
    onCursor index action session = .ok none session := by
  unfold onCursor
  rw [h]

/-- The session after a cursor has acted. -/
def withWalk (session : Session World Thread) (index : Nat) (walk : Walk World Thread) :
    Session World Thread where
  unwinder := walk.unwinder
  world := walk.world
  cursors := session.cursors.setIfInBounds index walk.cursor

theorem perform_onCursor {α : Type} {index : Nat} {cursor : Cursor Thread}
    (h : session.cursors[index]? = some cursor) (action : Action (Walk World Thread) α) :
    (onCursor index action).perform session =
      ((action.perform ⟨session.unwinder, session.world, cursor⟩).1.map some,
        session.withWalk index (action.perform ⟨session.unwinder, session.world, cursor⟩).2) := by
  unfold Action.perform onCursor
  rw [h]
  dsimp only
  cases action ⟨session.unwinder, session.world, cursor⟩ <;> rfl

theorem serve_registerRegion (space : AddressSpace World Thread) (session : Session World Thread)
    (region : Region) :
    serve space (.registerRegion region) session =
      match session.unwinder.registry.register region with
      | .error e => .error e session
      | .ok (region, registry) =>
          .ok (.region (some region)) (session.renewed registry session.world) := by
  rw [serve, Action.get_bind_apply, Unwinder.registerRegion]
  cases session.unwinder.registry.register region <;> rfl

theorem serve_unregisterRegion (space : AddressSpace World Thread)
    (session : Session World Thread) (start : UInt64) :
    serve space (.unregisterRegion start) session =
      match session.unwinder.registry.unregister start with
      | none => .ok (.region none) session
      | some (region, registry) =>
          .ok (.region (some region)) (session.renewed registry session.world) := by
  rw [serve, Action.get_bind_apply, Unwinder.unregisterRegion]
  cases session.unwinder.registry.unregister start <;> rfl

theorem serve_bumpGeneration (space : AddressSpace World Thread)
    (session : Session World Thread) (world : World) :
    serve space (.bumpGeneration world) session =
      .ok .done (session.renewed session.unwinder.registry world) :=
  rfl

/-! ## What becomes of the unwinder -/

/-- The unwinder was not used, or used for the rules of one frame. -/
def AsksOnce (space : AddressSpace World Thread) (before after : Session World Thread) : Prop :=
  after.unwinder = before.unwinder ∨
    ∃ cursor, after.unwinder =
      ((Walk.frameRules space).perform ⟨before.unwinder, before.world, cursor⟩).2.unwinder

theorem AsksOnce.registry_eq {before after : Session World Thread}
    (h : AsksOnce space before after) : after.unwinder.registry = before.unwinder.registry := by
  rcases h with hunused | ⟨cursor, honce⟩
  · rw [hunused]
  · have hsearched : Walk.Searched space ⟨before.unwinder, before.world, cursor⟩
        ((Walk.frameRules space).perform ⟨before.unwinder, before.world, cursor⟩).2 :=
      Walk.frameRules_searched _
    rw [honce]
    exact hsearched.registry

theorem onCursor_asksOnce {α : Type} {action : Action (Walk World Thread) α}
    (haction : action.Keeps (Walk.AsksOnce space)) (index : Nat) :
    (onCursor index action).Keeps (AsksOnce space) := by
  intro session
  cases hcursor : session.cursors[index]? with
  | none =>
      unfold Action.perform
      rw [onCursor_of_none hcursor]
      exact Or.inl rfl
  | some cursor =>
      rw [perform_onCursor hcursor]
      rcases haction ⟨session.unwinder, session.world, cursor⟩ with hsame | honce
      · exact Or.inl hsame
      · exact Or.inr ⟨cursor, honce⟩

theorem unwinder_openCursor (space : AddressSpace World Thread) (session : Session World Thread)
    (thread : Thread) :
    ((openCursor space thread).perform session).2.unwinder = session.unwinder := by
  unfold Action.perform openCursor
  simp only [Action.get_bind_apply]
  cases Cursor.make space session.world thread <;> rfl

/-- A request asks for the rules of one frame at most, or begins the next
generation. -/
theorem serve_cases (space : AddressSpace World Thread) (session : Session World Thread)
    (request : Request World Thread) :
    AsksOnce space session ((serve space request).perform session).2 ∨
      ∃ registry, ((serve space request).perform session).2.unwinder =
        { session.unwinder with registry := registry }.bumpGeneration := by
  have hcursor : ∀ {α : Type} {action : Action (Walk World Thread) α} (f : Option α → Answer)
      (index : Nat), action.Keeps (Walk.AsksOnce space) → AsksOnce space session
        ((onCursor index action >>= fun a => pure (f a)).perform session).2 := by
    intro α action f index haction
    rw [Action.perform_bind_pure]
    exact onCursor_asksOnce haction index session
  cases request with
  | openCursor thread =>
      refine Or.inl (Or.inl ?_)
      rw [serve, Action.perform_bind_pure]
      exact unwinder_openCursor space session thread
  | step index => exact Or.inl (hcursor _ index Walk.step_asksOnce)
  | argsSize index => exact Or.inl (hcursor _ index Walk.argsSize_asksOnce)
  | isSignalFrame index => exact Or.inl (hcursor _ index Walk.isSignalFrame_asksOnce)
  | setPredicates index predicates => exact Or.inl (hcursor _ index fun _ => Or.inl rfl)
  | setValidate index validate => exact Or.inl (hcursor _ index fun _ => Or.inl rfl)
  | registerRegion region =>
      unfold Action.perform
      rw [serve_registerRegion]
      cases session.unwinder.registry.register region with
      | error e => exact Or.inl (Or.inl rfl)
      | ok registered => exact Or.inr ⟨registered.2, rfl⟩
  | unregisterRegion start =>
      unfold Action.perform
      rw [serve_unregisterRegion]
      cases session.unwinder.registry.unregister start with
      | none => exact Or.inl (Or.inl rfl)
      | some removed => exact Or.inr ⟨removed.2, rfl⟩
  | bumpGeneration world => exact Or.inr ⟨session.unwinder.registry, rfl⟩

/-! ## What becomes of the cache -/

/-- The session's cache is not of a generation yet to come. -/
def Behind (session : Session World Thread) : Prop :=
  ∀ cache, session.unwinder.cache = some cache →
    cache.generation ≤ session.unwinder.generation

theorem make_behind (config : CacheConfig) (world : World) :
    (make config world : Session World Thread).Behind := by
  intro cache hcache
  rw [CacheConfig.cache_eq_make hcache]
  exact UInt64.le_refl _

theorem ne_next {old generation : UInt64} (h : old ≤ generation)
    (hnext : generation ≤ generation + 1) : old ≠ generation + 1 := by
  rw [UInt64.le_iff_toNat_le] at h hnext
  intro hsame
  have hcontra : generation.toNat = (generation + 1).toNat := by
    rw [hsame] at h
    exact le_antisymm hnext h
  have hone : (1 : UInt64).toNat = 1 := rfl
  have hlt := generation.toNat_lt
  rw [UInt64.toNat_add, hone] at hcontra
  omega

/-- Nothing that the cache has is taken in the next generation. -/
theorem Behind.trusted_next (hbehind : session.Behind) {right : CacheEntry → Prop}
    (htrusted : session.unwinder.Trusted right) {registry : Registry} {world : World}
    (hcounts : session.unwinder.generation ≤
      (session.renewed registry world).unwinder.generation) (right' : CacheEntry → Prop) :
    (session.renewed registry world).unwinder.Trusted right' := by
  intro cache hcache
  have hbefore : session.unwinder.cache = some cache := hcache
  exact (htrusted cache hbefore).of_ne (ne_next (hbehind cache hbefore) hcounts) _

theorem serve_behind {right : CacheEntry → Prop} (htrusted : session.unwinder.Trusted right)
    (hbehind : session.Behind) (request : Request World Thread)
    (hcounts : session.unwinder.generation ≤
      ((serve space request).perform session).2.unwinder.generation) :
    ((serve space request).perform session).2.Behind := by
  intro cache hcache
  -- a request that uses the cache leaves it of the generation it began in
  refine UInt64.le_trans ?_ hcounts
  rcases serve_cases space session request with (hsame | ⟨cursor, honce⟩) | ⟨registry, hnext⟩
  · exact hbehind cache ((congrArg Unwinder.cache hsame).symm.trans hcache)
  · have hany : session.unwinder.Trusted fun _ => True := htrusted.mono fun _ _ => trivial
    have hused : ((Walk.frameRules space).perform
        ⟨session.unwinder, session.world, cursor⟩).2.unwinder.UsedIn
          session.unwinder.generation fun _ => True :=
      (Walk.frameRules_of_trusted (fun _ _ _ => trivial) hany).2
    rw [honce] at hcache
    exact UInt64.le_of_eq (hused cache hcache).1
  · exact hbehind cache ((congrArg Unwinder.cache hnext).symm.trans hcache)

/-! ## How far the generation counts -/

theorem serve_bumped {limit : Nat}
    (hlimit : ∀ world thread ip, (space.findProc world thread ip).changes ≤ limit)
    (hone : 1 ≤ limit) (session : Session World Thread) (request : Request World Thread) :
    session.unwinder.Bumped limit ((serve space request).perform session).2.unwinder := by
  rcases serve_cases space session request with (hsame | ⟨cursor, honce⟩) | ⟨registry, hnext⟩
  · rw [hsame]
    exact ⟨0, Nat.zero_le limit, (UInt64.add_zero _).symm⟩
  · rw [honce]
    exact Walk.frameRules_bumped hlimit ⟨session.unwinder, session.world, cursor⟩
  · rw [hnext]
    exact ⟨1, hone, rfl⟩

/-- It takes about `2 ^ 64` requests for the generation to come round. -/
theorem countsUp_of_length_lt {limit : Nat}
    (hlimit : ∀ world thread ip, (space.findProc world thread ip).changes ≤ limit)
    (hone : 1 ≤ limit) (requests : List (Request World Thread))
    (hlength : session.unwinder.generation.toNat + requests.length * limit < 2 ^ 64) :
    session.CountsUp space requests := by
  induction requests generalizing session with
  | nil => trivial
  | cons request rest ih =>
      rw [List.length_cons, Nat.add_mul, Nat.one_mul] at hlength
      obtain ⟨count, hcount, hvalue⟩ :=
        (serve_bumped hlimit hone session request).toNat_eq (by omega)
      constructor
      · rw [UInt64.le_iff_toNat_le, hvalue]
        exact Nat.le_add_right _ _
      · apply ih
        rw [hvalue]
        omega

end Session
end StackWalk
