import StackWalk.Region.Registry
import StackWalk.ScriptCache

/-!
# The unwinder

What outlives a single walk: the script cache, the registered regions, and the
generation of the unwind information.  The generation is bumped whenever that
information may have changed, and scripts of another generation are never
used.
-/

namespace StackWalk

/-- Whether and for whom scripts are kept. -/
inductive CachePolicy where
  /-- No scripts are kept. -/
  | none
  /-- One cache for all threads. -/
  | shared
  /-- A cache for each thread that steps. -/
  | perThread
  deriving DecidableEq, Repr

/-- How scripts are kept. -/
structure CacheConfig where
  policy : CachePolicy := .shared
  capacity : Nat := ScriptCache.defaultCapacity
  deriving DecidableEq, Repr

/-- The cache that the stepping thread sees. -/
def CacheConfig.cache (config : CacheConfig) : Option ScriptCache :=
  match config.policy with
  | .none => Option.none
  | .shared => some (ScriptCache.make config.capacity)
  | .perThread => some (ScriptCache.make config.capacity)

/-- What outlives a walk. -/
structure Unwinder where
  cache : Option ScriptCache
  generation : UInt64
  registry : Registry
  deriving DecidableEq, Repr

namespace Unwinder

def make (config : CacheConfig) : Unwinder where
  cache := config.cache
  generation := 0
  registry := .empty

def bumpGeneration (unwinder : Unwinder) : Unwinder :=
  { unwinder with generation := unwinder.generation + 1 }

/-- Invalidates all scripts, once for each of `count` changes. -/
def bumpTimes (unwinder : Unwinder) (count : Nat) : Unwinder :=
  { unwinder with generation := unwinder.generation + UInt64.ofNat count }

def registerRegion (unwinder : Unwinder) (region : Region) :
    Except UnwindError (Region × Unwinder) := do
  let (region, registry) ← unwinder.registry.register region
  return (region, { unwinder with registry := registry }.bumpGeneration)

/-- Removes the region that starts at an address, and answers it. -/
def unregisterRegion (unwinder : Unwinder) (start : UInt64) : Option (Region × Unwinder) :=
  match unwinder.registry.unregister start with
  | some (region, registry) => some (region, { unwinder with registry := registry }.bumpGeneration)
  | none => none

/-- How often the cache was of use, if there is one. -/
def cacheStats (unwinder : Unwinder) : Option CacheStats :=
  unwinder.cache.map (·.stats)

/-- Looks a script up, after forgetting those of another generation. -/
def lookupScript (unwinder : Unwinder) (key : CacheKey) (hint : Option Nat) :
    Option (Nat × CacheEntry) × Unwinder :=
  match unwinder.cache with
  | none =>
      (none, unwinder)
  | some cache =>
      let (found, cache) := (cache.sync unwinder.generation).lookup key hint
      (found, { unwinder with cache := some cache })

/-- Keeps a script made in `generation`, unless that has passed.  Answers its
slot. -/
def storeScript (unwinder : Unwinder) (generation : UInt64) (key : CacheKey) (script : Script)
    (info : ProcInfo) : Option Nat × Unwinder :=
  if unwinder.generation = generation then
    match unwinder.cache with
    | none =>
        (none, unwinder)
    | some cache =>
        let (slot, cache) := (cache.sync generation).insert key script info
        (some slot, { unwinder with cache := some cache })
  else
    (none, unwinder)

end Unwinder
end StackWalk
