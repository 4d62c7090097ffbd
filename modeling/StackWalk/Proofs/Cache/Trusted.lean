import StackWalk.Proofs.Cache.LruMap
import StackWalk.Unwinder

/-!
# What the unwinder takes from its cache

Scripts are right for one generation of the unwind information.  A cache may be
trusted when all that it has of the current generation is right; what it has of
another is never taken.  Looking scripts up and keeping right ones maintains
this.
-/

namespace StackWalk

namespace ScriptCache

/-- What the cache has of a generation is right. -/
def Trusted (cache : ScriptCache) (generation : UInt64) (right : CacheEntry → Prop) : Prop :=
  ∃ map unused used, cache.Represents map unused used ∧
    (cache.generation = generation → ∀ entry ∈ map.entries, right entry)

variable {cache : ScriptCache} {generation : UInt64} {right : CacheEntry → Prop}

theorem trusted_make (capacity : Nat) (generation : UInt64) (right : CacheEntry → Prop) :
    (make capacity).Trusted generation right :=
  ⟨_, _, _, .make capacity, fun _ _ hentry => absurd hentry List.not_mem_nil⟩

namespace Trusted

theorem mono {right' : CacheEntry → Prop} (h : cache.Trusted generation right)
    (himp : ∀ entry, right entry → right' entry) : cache.Trusted generation right' := by
  obtain ⟨map, unused, used, hmap, hright⟩ := h
  exact ⟨map, unused, used, hmap, fun hsame entry hentry =>
    himp entry (hright hsame entry hentry)⟩

/-- Nothing is taken in a generation that the cache is not of. -/
theorem of_ne {next : UInt64} (h : cache.Trusted generation right)
    (hne : cache.generation ≠ next) (right' : CacheEntry → Prop) :
    cache.Trusted next right' := by
  obtain ⟨map, unused, used, hmap, -⟩ := h
  exact ⟨map, unused, used, hmap, fun hsame => absurd hsame hne⟩

/-- What is right of the cache's own generation is right whichever comes. -/
theorem of_eq (h : cache.Trusted generation right) (hsame : cache.generation = generation)
    (next : UInt64) : cache.Trusted next right := by
  obtain ⟨map, unused, used, hmap, hright⟩ := h
  exact ⟨map, unused, used, hmap, fun _ => hright hsame⟩

theorem sync (h : cache.Trusted generation right) :
    (cache.sync generation).generation = generation ∧
      (cache.sync generation).Trusted generation right := by
  obtain ⟨map, unused, used, hmap, hright⟩ := h
  obtain ⟨unused', used', hsynced⟩ := hmap.sync generation
  have hgeneration := hsynced.generation
  rw [LruMap.generation_sync] at hgeneration
  refine ⟨hgeneration.symm, _, _, _, hsynced, ?_⟩
  intro _ entry hentry
  obtain ⟨hsame, hentry⟩ := LruMap.mem_of_mem_sync hentry
  exact hright (hmap.generation.symm.trans hsame) entry hentry

theorem lookup (h : cache.Trusted generation right) (hsame : cache.generation = generation)
    (key : CacheKey) (hint : Option Nat) :
    (∀ slot entry, (cache.lookup key hint).1 = some (slot, entry) →
        entry.key = key ∧ right entry) ∧
      (cache.lookup key hint).2.generation = generation ∧
      (cache.lookup key hint).2.Trusted generation right := by
  obtain ⟨map, unused, used, hmap, hright⟩ := h
  obtain ⟨hanswer, used', hafter⟩ := hmap.lookup key hint
  have hgeneration := hafter.generation
  rw [LruMap.generation_lookup, hmap.generation, hsame] at hgeneration
  refine ⟨?_, hgeneration.symm, _, _, _, hafter, ?_⟩
  · intro slot entry hfound
    rw [hfound] at hanswer
    obtain ⟨hentry, hkey⟩ := LruMap.mem_of_lookup_eq_some hanswer.symm
    exact ⟨hkey, hright hsame entry hentry⟩
  · intro _ entry hentry
    exact hright hsame entry (LruMap.mem_of_mem_lookup hentry)

theorem insert (h : cache.Trusted generation right) (hsame : cache.generation = generation)
    {key : CacheKey} {script : Script} {info : ProcInfo} (hnew : right ⟨key, script, info⟩) :
    (cache.insert key script info).2.generation = generation ∧
      (cache.insert key script info).2.Trusted generation right := by
  obtain ⟨map, unused, used, hmap, hright⟩ := h
  obtain ⟨unused', used', hafter⟩ := hmap.insert key script info
  have hgeneration := hafter.generation
  rw [LruMap.generation_insert, hmap.generation, hsame] at hgeneration
  refine ⟨hgeneration.symm, _, _, _, hafter, ?_⟩
  intro _ entry hentry
  rcases LruMap.mem_of_mem_insert hentry with hentry | rfl
  · exact hright hsame entry hentry
  · exact hnew

end Trusted
end ScriptCache

theorem CacheConfig.cache_eq_make {config : CacheConfig} {cache : ScriptCache}
    (h : config.cache = some cache) : cache = ScriptCache.make config.capacity := by
  unfold CacheConfig.cache at h
  cases hpolicy : config.policy with
  | none =>
      rw [hpolicy] at h
      cases h
  | shared =>
      rw [hpolicy] at h
      exact (Option.some.inj h).symm
  | perThread =>
      rw [hpolicy] at h
      exact (Option.some.inj h).symm

namespace Unwinder

/-- The cache, if there is one, may be trusted. -/
def Trusted (unwinder : Unwinder) (right : CacheEntry → Prop) : Prop :=
  ∀ cache, unwinder.cache = some cache → cache.Trusted unwinder.generation right

/-- The cache, if there is one, was used in a generation and has what is right
of it. -/
def UsedIn (unwinder : Unwinder) (generation : UInt64) (right : CacheEntry → Prop) : Prop :=
  ∀ cache, unwinder.cache = some cache →
    cache.generation = generation ∧ cache.Trusted generation right

variable {unwinder : Unwinder} {generation : UInt64} {right : CacheEntry → Prop}

theorem trusted_make (config : CacheConfig) (right : CacheEntry → Prop) :
    (make config).Trusted right := by
  intro cache hcache
  rw [CacheConfig.cache_eq_make hcache]
  exact ScriptCache.trusted_make config.capacity _ _

theorem Trusted.mono {right' : CacheEntry → Prop} (h : unwinder.Trusted right)
    (himp : ∀ entry, right entry → right' entry) : unwinder.Trusted right' :=
  fun cache hcache => (h cache hcache).mono himp

theorem UsedIn.trusted (h : unwinder.UsedIn generation right) : unwinder.Trusted right :=
  fun cache hcache => (h cache hcache).2.of_eq (h cache hcache).1 unwinder.generation

theorem lookupScript_spec (h : unwinder.Trusted right) (key : CacheKey) (hint : Option Nat) :
    (∀ slot entry, (unwinder.lookupScript key hint).1 = some (slot, entry) →
        entry.key = key ∧ right entry) ∧
      (unwinder.lookupScript key hint).2.UsedIn unwinder.generation right := by
  unfold lookupScript
  cases hcache : unwinder.cache with
  | none =>
      refine ⟨?_, ?_⟩
      · intro slot entry hfound
        cases hfound
      · intro cache hsome
        rw [hcache] at hsome
        cases hsome
  | some cache =>
      obtain ⟨hgeneration, hsynced⟩ := (h cache hcache).sync
      obtain ⟨hfound, hafter⟩ := hsynced.lookup hgeneration key hint
      refine ⟨hfound, ?_⟩
      intro after hsome
      obtain rfl := Option.some.inj hsome
      exact hafter

end Unwinder
end StackWalk
