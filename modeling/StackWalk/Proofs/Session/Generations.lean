import StackWalk.Proofs.Session.Transparency

/-!
# Generations and regions

An unwinder begins another generation whenever it changes its regions, and so
takes no rules that were made under others.  The registry it hands out knows of
no generation: a change made there is the one thing that goes unnoticed.
-/

namespace StackWalk
namespace Session

variable {World Thread : Type}

/-- What can be done to a session: a request, or a change of the registry that
the unwinder hands out. -/
inductive Operation (World Thread : Type) where
  | request (request : Request World Thread)
  | register (region : Region)
  | unregister (start : UInt64)

/-- The operation is on the registry handed out. -/
def Operation.OnRegistry : Operation World Thread → Prop
  | .request _ => False
  | .register _ => True
  | .unregister _ => True

/-- The operation adds or removes a region, through the unwinder or not. -/
def Operation.OfRegions : Operation World Thread → Prop
  | .request (.registerRegion _) => True
  | .request (.unregisterRegion _) => True
  | .request _ => False
  | .register _ => True
  | .unregister _ => True

def withRegistry (session : Session World Thread) (registry : Registry) : Session World Thread :=
  { session with unwinder := { session.unwinder with registry := registry } }

def operate (space : AddressSpace World Thread) :
    Operation World Thread → Action (Session World Thread) Answer
  | .request request =>
      serve space request
  | .register region => do
      let session ← get
      let (region, registry) ← session.unwinder.registry.register region
      set (session.withRegistry registry)
      return .region (some region)
  | .unregister start => do
      let session ← get
      match session.unwinder.registry.unregister start with
      | some (region, registry) =>
          set (session.withRegistry registry)
          return .region (some region)
      | none =>
          return .region none

def next (space : AddressSpace World Thread) (session : Session World Thread)
    (operation : Operation World Thread) : Session World Thread :=
  ((operate space operation).perform session).2

/-- The session at the end of a run. -/
def run (space : AddressSpace World Thread) (session : Session World Thread) :
    List (Operation World Thread) → Session World Thread
  | [] => session
  | operation :: rest => (session.next space operation).run space rest

/-- The session at every moment of a run. -/
def moments (space : AddressSpace World Thread) (session : Session World Thread) :
    List (Operation World Thread) → List (Session World Thread)
  | [] => [session]
  | operation :: rest => session :: (session.next space operation).moments space rest

/-- In the run the generation does not come round. -/
def Progresses (space : AddressSpace World Thread) (session : Session World Thread) :
    List (Operation World Thread) → Prop
  | [] => True
  | operation :: rest =>
      session.unwinder.generation ≤ (session.next space operation).unwinder.generation ∧
        (session.next space operation).Progresses space rest

/-- In the run nothing changes in the registry handed out. -/
def LeavesRegistry (space : AddressSpace World Thread) (session : Session World Thread) :
    List (Operation World Thread) → Prop
  | [] => True
  | operation :: rest =>
      (operation.OnRegistry →
        (session.next space operation).unwinder.registry = session.unwinder.registry) ∧
      (session.next space operation).LeavesRegistry space rest

variable {space : AddressSpace World Thread} {session : Session World Thread}
  {operations : List (Operation World Thread)}

/-! ## Operations one by one -/

theorem next_request (space : AddressSpace World Thread) (session : Session World Thread)
    (request : Request World Thread) :
    session.next space (.request request) = ((serve space request).perform session).2 :=
  rfl

theorem operate_register (space : AddressSpace World Thread) (session : Session World Thread)
    (region : Region) :
    operate space (.register region) session =
      match session.unwinder.registry.register region with
      | .error e => .error e session
      | .ok (region, registry) =>
          .ok (.region (some region)) (session.withRegistry registry) := by
  rw [operate, Action.get_bind_apply]
  cases session.unwinder.registry.register region <;> rfl

theorem operate_unregister (space : AddressSpace World Thread) (session : Session World Thread)
    (start : UInt64) :
    operate space (.unregister start) session =
      match session.unwinder.registry.unregister start with
      | none => .ok (.region none) session
      | some (region, registry) =>
          .ok (.region (some region)) (session.withRegistry registry) := by
  rw [operate, Action.get_bind_apply]
  cases session.unwinder.registry.unregister start <;> rfl

/-- Where no region is added or removed, nothing happens at all. -/
theorem next_of_unanswered {operation : Operation World Thread} (h : operation.OfRegions)
    (hnone : ∀ region,
      ((operate space operation).perform session).1 ≠ .ok (.region (some region))) :
    session.next space operation = session := by
  unfold next
  unfold Action.perform at hnone ⊢
  cases operation with
  | register region =>
      rw [operate_register] at hnone ⊢
      cases hregister : session.unwinder.registry.register region with
      | error e => rfl
      | ok registered => simp [hregister] at hnone
  | unregister start =>
      rw [operate_unregister] at hnone ⊢
      cases hunregister : session.unwinder.registry.unregister start with
      | none => rfl
      | some removed => simp [hunregister] at hnone
  | request request =>
      rw [operate] at hnone ⊢
      cases request with
      | registerRegion region =>
          rw [serve_registerRegion] at hnone ⊢
          cases hregister : session.unwinder.registry.register region with
          | error e => rfl
          | ok registered => simp [hregister] at hnone
      | unregisterRegion start =>
          rw [serve_unregisterRegion] at hnone ⊢
          cases hunregister : session.unwinder.registry.unregister start with
          | none => rfl
          | some removed => simp [hunregister] at hnone
      | _ => exact h.elim

/-- Operations on the registry change the regions of the session at most. -/
theorem next_of_onRegistry (space : AddressSpace World Thread) (session : Session World Thread)
    {operation : Operation World Thread} (h : operation.OnRegistry) :
    ∃ registry, session.next space operation = session.withRegistry registry := by
  unfold next Action.perform
  cases operation with
  | request request => exact h.elim
  | register region =>
      rw [operate_register]
      cases session.unwinder.registry.register region with
      | error e => exact ⟨session.unwinder.registry, rfl⟩
      | ok registered => exact ⟨registered.2, rfl⟩
  | unregister start =>
      rw [operate_unregister]
      cases session.unwinder.registry.unregister start with
      | none => exact ⟨session.unwinder.registry, rfl⟩
      | some removed => exact ⟨removed.2, rfl⟩

theorem next_bumped {limit : Nat}
    (hlimit : ∀ world thread ip, (space.findProc world thread ip).changes ≤ limit)
    (hone : 1 ≤ limit) (session : Session World Thread) (operation : Operation World Thread) :
    session.unwinder.Bumped limit (session.next space operation).unwinder := by
  by_cases hregistry : operation.OnRegistry
  · obtain ⟨registry, hnext⟩ := next_of_onRegistry space session hregistry
    rw [hnext]
    exact ⟨0, Nat.zero_le limit, (UInt64.add_zero _).symm⟩
  · cases operation with
    | request request => exact serve_bumped hlimit hone session request
    | register region => exact absurd trivial hregistry
    | unregister start => exact absurd trivial hregistry

/-- It takes about `2 ^ 64` operations for the generation to come round. -/
theorem progresses_of_length_lt {limit : Nat}
    (hlimit : ∀ world thread ip, (space.findProc world thread ip).changes ≤ limit)
    (hone : 1 ≤ limit) (operations : List (Operation World Thread))
    (hlength : session.unwinder.generation.toNat + operations.length * limit < 2 ^ 64) :
    session.Progresses space operations := by
  induction operations generalizing session with
  | nil => trivial
  | cons operation rest ih =>
      rw [List.length_cons, Nat.add_mul, Nat.one_mul] at hlength
      obtain ⟨count, hcount, hvalue⟩ :=
        (next_bumped hlimit hone session operation).toNat_eq (by omega)
      constructor
      · rw [UInt64.le_iff_toNat_le, hvalue]
        exact Nat.le_add_right _ _
      · apply ih
        rw [hvalue]
        omega

/-! ## The generation tells regions apart -/

/-- The generation has not gone back, and while it stays the regions do. -/
structure Follows (earlier later : Session World Thread) : Prop where
  generation_le : earlier.unwinder.generation ≤ later.unwinder.generation
  registry_eq : earlier.unwinder.generation = later.unwinder.generation →
    earlier.unwinder.registry = later.unwinder.registry

instance : IsPreorder (Session World Thread) Follows where
  refl _ := ⟨UInt64.le_refl _, fun _ => rfl⟩
  trans first second third h₁ h₂ := by
    refine ⟨UInt64.le_trans h₁.generation_le h₂.generation_le, ?_⟩
    intro hsame
    have hback : second.unwinder.generation ≤ first.unwinder.generation := by
      rw [hsame]
      exact h₂.generation_le
    have hfirst := UInt64.le_antisymm h₁.generation_le hback
    rw [h₁.registry_eq hfirst, h₂.registry_eq (hfirst.symm.trans hsame)]

theorem next_follows {operation : Operation World Thread}
    (hprogress : session.unwinder.generation ≤ (session.next space operation).unwinder.generation)
    (hleaves : operation.OnRegistry →
      (session.next space operation).unwinder.registry = session.unwinder.registry) :
    session.Follows (session.next space operation) := by
  refine ⟨hprogress, ?_⟩
  intro hsame
  cases operation with
  | register region => exact (hleaves trivial).symm
  | unregister start => exact (hleaves trivial).symm
  | request request =>
      rw [next_request] at hprogress hsame ⊢
      rcases serve_cases space session request with hasks | ⟨_, hbumped⟩
      · exact hasks.registry_eq.symm
      · -- the next generation is another one
        rw [hbumped] at hprogress hsame
        exact absurd hsame (ne_next (UInt64.le_refl _) hprogress)

theorem head_moments (space : AddressSpace World Thread) (session : Session World Thread)
    (operations : List (Operation World Thread)) :
    (session.moments space operations).head? = some session := by
  cases operations <;> rfl

theorem moments_pairwise_follows (hprogress : session.Progresses space operations)
    (hleaves : session.LeavesRegistry space operations) :
    (session.moments space operations).Pairwise Follows := by
  have hchain : (session.moments space operations).IsChain Follows := by
    induction operations generalizing session with
    | nil => exact .singleton _
    | cons operation rest ih =>
        rw [moments, List.isChain_cons]
        refine ⟨?_, ih hprogress.2 hleaves.2⟩
        intro after hafter
        rw [head_moments] at hafter
        obtain rfl := Option.some.inj hafter
        exact next_follows hprogress.1 hleaves.1
  exact hchain.pairwise

theorem run_mem_moments : session.run space operations ∈ session.moments space operations := by
  induction operations generalizing session with
  | nil => simp [run, moments]
  | cons operation rest ih => simp [run, moments, ih]

/-- Two moments with other regions are of other generations. -/
def ToldApart (earlier later : Session World Thread) : Prop :=
  earlier.unwinder.registry ≠ later.unwinder.registry →
    earlier.unwinder.generation ≠ later.unwinder.generation

theorem leavesRegistry_of_pairwise
    (h : (session.moments space operations).Pairwise ToldApart) :
    session.LeavesRegistry space operations := by
  induction operations generalizing session with
  | nil => trivial
  | cons operation rest ih =>
      rw [moments, List.pairwise_cons] at h
      refine ⟨?_, ih h.2⟩
      intro hregistry
      have happart := h.1 _ (List.mem_of_head? (head_moments space _ rest))
      obtain ⟨registry, hnext⟩ := next_of_onRegistry space session hregistry
      by_contra hchanged
      exact happart (Ne.symm hchanged) (by rw [hnext]; rfl)

/-! ## Rules are taken under the regions they were made under -/

/-- The rules came out when they were computed at that moment. -/
def Compiles (space : AddressSpace World Thread) (session : Session World Thread)
    (entry : CacheEntry) : Prop :=
  ∃ walk : Walk World Thread,
    walk.unwinder.registry = session.unwinder.registry ∧ walk.world = session.world ∧
      walk.key = entry.key ∧
      ((Walk.freshRules space walk.unwinder.generation walk.key).perform walk).1 =
        .ok (entry.script, entry.info)

/-- The rules were computed at one of these moments, under the regions of now. -/
def CompiledIn (space : AddressSpace World Thread) (past : List (Session World Thread))
    (session : Session World Thread) (entry : CacheEntry) : Prop :=
  ∃ earlier ∈ past, earlier.unwinder.registry = session.unwinder.registry ∧
    earlier.Compiles space entry

theorem CompiledIn.mono {past past' : List (Session World Thread)} {later : Session World Thread}
    {entry : CacheEntry} (h : session.CompiledIn space past entry) (hsub : past ⊆ past')
    (hregistry : later.unwinder.registry = session.unwinder.registry) :
    later.CompiledIn space past' entry := by
  obtain ⟨earlier, hearlier, hsame, hcompiles⟩ := h
  exact ⟨earlier, hsub hearlier, hsame.trans hregistry.symm, hcompiles⟩

/-- What the cache would be asked for now was computed in the past. -/
structure Recalls (space : AddressSpace World Thread) (past : List (Session World Thread))
    (session : Session World Thread) : Prop where
  trusted : session.unwinder.Trusted (session.CompiledIn space past)
  behind : session.Behind

theorem Recalls.frameRules {past : List (Session World Thread)}
    (h : session.Recalls space past) (hnow : session ∈ past) (cursor : Cursor Thread) :
    let walk : Walk World Thread := ⟨session.unwinder, session.world, cursor⟩
    let outcome := (Walk.frameRules space).perform walk
    (∀ script info, outcome.1 = .ok (script, info) →
      session.CompiledIn space past ⟨walk.key, script, info⟩) ∧
      outcome.2.unwinder.UsedIn session.unwinder.generation (session.CompiledIn space past) := by
  intro walk outcome
  have hlooked := walk.looked_changes
  have hfresh : ∀ script info,
      ((Walk.freshRules space walk.unwinder.generation walk.key).perform
        { walk with unwinder := walk.looked.2 }).1 = .ok (script, info) →
          session.CompiledIn space past ⟨walk.key, script, info⟩ := by
    intro script info hcomputed
    rw [← hlooked.2] at hcomputed
    exact ⟨session, hnow, rfl, { walk with unwinder := walk.looked.2 }, hlooked.1, rfl, rfl,
      hcomputed⟩
  obtain ⟨hrules, hused⟩ := Walk.frameRules_of_trusted hfresh h.trusted
  refine ⟨?_, hused⟩
  intro script info hanswer
  rcases hrules with ⟨entry, hentry, hkey, hhit⟩ | hmiss
  · obtain ⟨rfl, rfl⟩ := Prod.mk.inj (Except.ok.inj (hhit.symm.trans hanswer))
    rw [← hkey]
    exact hentry
  · exact hfresh script info (hmiss.symm.trans hanswer)

theorem Recalls.mono {past past' : List (Session World Thread)} (h : session.Recalls space past)
    (hsub : past ⊆ past') : session.Recalls space past' :=
  ⟨h.trusted.mono fun _ hentry => hentry.mono hsub rfl, h.behind⟩

theorem Recalls.next_onRegistry {past : List (Session World Thread)}
    (h : session.Recalls space past) {operation : Operation World Thread}
    (hregistry : operation.OnRegistry)
    (hsame : (session.next space operation).unwinder.registry = session.unwinder.registry) :
    (session.next space operation).Recalls space past := by
  obtain ⟨registry, hnext⟩ := next_of_onRegistry space session hregistry
  rw [hnext] at hsame ⊢
  obtain rfl : registry = session.unwinder.registry := hsame
  exact h

theorem Recalls.next {past : List (Session World Thread)} (h : session.Recalls space past)
    (hnow : session ∈ past) {operation : Operation World Thread}
    (hprogress : session.unwinder.generation ≤ (session.next space operation).unwinder.generation)
    (hleaves : operation.OnRegistry →
      (session.next space operation).unwinder.registry = session.unwinder.registry) :
    (session.next space operation).Recalls space past := by
  cases operation with
  | register region => exact h.next_onRegistry trivial (hleaves trivial)
  | unregister start => exact h.next_onRegistry trivial (hleaves trivial)
  | request request =>
      rw [next_request] at hprogress ⊢
      refine ⟨?_, serve_behind h.trusted h.behind request hprogress⟩
      rcases serve_cases space session request with hasks | ⟨_, hbumped⟩
      · have htrusted : ((serve space request).perform session).2.unwinder.Trusted
            (session.CompiledIn space past) := by
          rcases hasks with hunused | ⟨cursor, honce⟩
          · rw [hunused]
            exact h.trusted
          · rw [honce]
            exact (h.frameRules hnow cursor).2.trusted
        exact htrusted.mono fun entry hentry =>
          hentry.mono (List.Subset.refl _) hasks.registry_eq
      · rw [hbumped] at hprogress ⊢
        change (session.renewed _ session.world).unwinder.Trusted _
        exact h.behind.trusted_next h.trusted hprogress _

theorem run_recalls {past : List (Session World Thread)} (h : session.Recalls space past)
    (hprogress : session.Progresses space operations)
    (hleaves : session.LeavesRegistry space operations) :
    (session.run space operations).Recalls space (past ++ session.moments space operations) := by
  -- on the operations: what is past grows by the moment that each of them ends
  induction operations generalizing past session with
  | nil => exact h.mono (List.subset_append_left _ _)
  | cons operation rest ih =>
      have hnow : session ∈ past ++ [session] := List.mem_append_right _ (List.mem_singleton_self _)
      have hnext := (h.mono (List.subset_append_left past [session])).next hnow
        hprogress.1 hleaves.1
      have hrest := ih hnext hprogress.2 hleaves.2
      rw [List.append_assoc] at hrest
      exact hrest

theorem make_recalls (space : AddressSpace World Thread) (config : CacheConfig) (world : World) :
    (make config world).Recalls space [] :=
  ⟨Unwinder.trusted_make config _, make_behind config world⟩

/-- The generation tells any two sets of regions of a run apart exactly if
nothing was changed through the registry handed out.  Then a frame never gets
rules that were computed under other regions than those of now. -/
theorem moments_toldApart_iff (config : CacheConfig) (world : World)
    (hprogress : (make config world).Progresses space operations) :
    ((((make config world).moments space operations).Pairwise fun earlier later =>
        earlier.unwinder.registry ≠ later.unwinder.registry →
          earlier.unwinder.generation ≠ later.unwinder.generation) ↔
      (make config world).LeavesRegistry space operations) ∧
    ((make config world).LeavesRegistry space operations →
      ∀ (cursor : Cursor Thread) script info,
        let now := (make config world).run space operations
        let walk : Walk World Thread := ⟨now.unwinder, now.world, cursor⟩
        ((Walk.frameRules space).perform walk).1 = .ok (script, info) →
          ∃ earlier ∈ (make config world).moments space operations,
            earlier.unwinder.registry = now.unwinder.registry ∧
              earlier.Compiles space ⟨walk.key, script, info⟩) ∧
    (∀ (session : Session World Thread) (operation : Operation World Thread),
      operation.OfRegions →
        (∀ region,
          ((operate space operation).perform session).1 ≠ .ok (.region (some region))) →
          session.next space operation = session) := by
  refine ⟨⟨leavesRegistry_of_pairwise, ?_⟩, ?_, ?_⟩
  · intro hleaves
    refine (moments_pairwise_follows hprogress hleaves).imp ?_
    intro earlier later hfollows hchanged hsame
    exact hchanged (hfollows.registry_eq hsame)
  · intro hleaves cursor script info now walk hanswer
    have hrecalls := run_recalls (make_recalls space config world) hprogress hleaves
    rw [List.nil_append] at hrecalls
    exact (hrecalls.frameRules run_mem_moments cursor).1 script info hanswer
  · intro session operation hregions hnone
    exact next_of_unanswered hregions hnone

/-! ## A change behind the unwinder's back -/

/-- A region for the code of the steady space, with frames of 32 bytes. -/
def widerRegion : Region where
  name := none
  start := 0x7000
  stop := 0x8000
  returnAddress := 30
  ops := [⟨0, none, .defCfa 31 32⟩, ⟨0, none, .spill 30 (-8)⟩]

/-- Two steps, one to an address whose rules are kept, a change of the regions,
and a step from that address. -/
def aroundChange (change : Operation Int64 UInt64) : List (Operation Int64 UInt64) :=
  [.request (.openCursor 0x7000), .request (.step 0), .request (.step 0), change,
    .request (.step 0)]

theorem moments_toldApart_registerRegion :
    let operations := aroundChange (.request (.registerRegion widerRegion))
    (make { capacity := 1 } 16).Progresses steadySpace operations ∧
      (make { capacity := 1 } 16).LeavesRegistry steadySpace operations ∧
      (((make { capacity := 1 } 16).moments steadySpace operations).Pairwise fun earlier later =>
        earlier.unwinder.registry ≠ later.unwinder.registry →
          earlier.unwinder.generation ≠ later.unwinder.generation) := by
  intro operations
  have hprogress : (make { capacity := 1 } 16).Progresses steadySpace operations :=
    progresses_of_length_lt (fun _ _ _ => Nat.zero_le 1) le_rfl _ (by decide)
  have hleaves : (make { capacity := 1 } 16).LeavesRegistry steadySpace operations :=
    ⟨False.elim, False.elim, False.elim, False.elim, False.elim, trivial⟩
  obtain ⟨⟨-, happart⟩, -, -⟩ := moments_toldApart_iff { capacity := 1 } 16 hprogress
  exact ⟨hprogress, hleaves, happart hleaves⟩

theorem moments_register_not_toldApart :
    let operations := aroundChange (.register widerRegion)
    ¬(((make { capacity := 1 } 16).moments steadySpace operations).Pairwise fun earlier later =>
        earlier.unwinder.registry ≠ later.unwinder.registry →
          earlier.unwinder.generation ≠ later.unwinder.generation) ∧
      ((make { capacity := 1 } 16).run steadySpace operations).cursors.map (·.cfa) = #[0x7030] ∧
      ((make { policy := .none } 16).run steadySpace operations).cursors.map (·.cfa) =
        #[0x7040] := by
  intro operations
  refine ⟨?_, by decide +kernel, by decide +kernel⟩
  intro hpairwise
  obtain ⟨-, -, -, hleft, -⟩ := leavesRegistry_of_pairwise hpairwise
  exact absurd (hleft trivial) (by decide +kernel)

end Session
end StackWalk
