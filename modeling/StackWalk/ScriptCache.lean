import StackWalk.Script

/-!
# The script cache

Scripts are kept in a fixed number of slots.  A slot is found through a hash
table of chains, and the slots form a list from the least to the most recently
used, whose first slot is the next to be recycled.  Slots that are not yet
used come first, in order, so a fresh cache fills them one after the other.
-/

namespace StackWalk

/-- What a script is kept under. -/
structure CacheKey where
  ip : UInt64
  predicates : Predicates
  deriving DecidableEq, Repr

/-- A script kept in a slot, and the procedure it was made for. -/
structure CacheEntry where
  key : CacheKey
  script : Script
  info : ProcInfo
  deriving DecidableEq, Repr

/-- One slot and its links. -/
structure CacheSlot where
  entry : Option CacheEntry
  /-- The slot used before this one. -/
  older : Option Nat
  /-- The slot used after this one. -/
  newer : Option Nat
  /-- The next slot with the same hash. -/
  chain : Option Nat
  deriving DecidableEq, Repr, Inhabited

/-- How often the cache was of use. -/
structure CacheStats where
  hits : UInt64
  misses : UInt64
  evictions : UInt64
  flushes : UInt64
  deriving DecidableEq, Repr

/-- A cache of scripts. -/
structure ScriptCache where
  slots : Array CacheSlot
  /-- The first slot of each chain. -/
  buckets : Array (Option Nat)
  /-- The number of hash bits in use. -/
  logBuckets : Nat
  /-- The least recently used slot. -/
  oldest : Nat
  /-- The most recently used slot. -/
  newest : Nat
  /-- The generation of the unwind information that the scripts are from. -/
  generation : UInt64
  stats : CacheStats
  deriving DecidableEq, Repr

namespace ScriptCache

/-- The largest number of slots. -/
def maxCapacity : Nat := 4096

/-- The number of slots where nothing else was asked for. -/
def defaultCapacity : Nat := 128

/-- The number of slots made when `capacity` were asked for. -/
def clampCapacity (capacity : Nat) : Nat :=
  min (max capacity 1) maxCapacity

/-- The least `log` with `n ≤ 2 ^ log`. -/
def ceilLog2 (n : Nat) : Nat :=
  if n ≤ 1 then
    0
  else
    Nat.log2 (n - 1) + 1

/-- Unused slots, linked in order. -/
def freshSlots (capacity : Nat) : Array CacheSlot :=
  Array.ofFn fun i : Fin capacity =>
    { entry := none
      older := if i.val = 0 then none else some (i.val - 1)
      newer := if i.val + 1 = capacity then none else some (i.val + 1)
      chain := none }

def make (capacity : Nat) : ScriptCache :=
  let size := clampCapacity capacity
  let log := ceilLog2 (2 * size)
  { slots := freshSlots size
    buckets := Array.replicate (1 <<< log) none
    logBuckets := log
    oldest := 0
    newest := size - 1
    generation := 0
    stats := ⟨0, 0, 0, 0⟩ }

def capacity (cache : ScriptCache) : Nat :=
  cache.slots.size

def size (cache : ScriptCache) : Nat :=
  cache.slots.countP (·.entry.isSome)

def isEmpty (cache : ScriptCache) : Bool :=
  cache.size == 0

def slot (cache : ScriptCache) (index : Nat) : CacheSlot :=
  cache.slots.getD index default

def modifySlot (cache : ScriptCache) (index : Nat) (change : CacheSlot → CacheSlot) :
    ScriptCache :=
  { cache with slots := cache.slots.modify index change }

/-- The bucket of an address: the high bits of its product with a constant. -/
def bucketOf (cache : ScriptCache) (ip : UInt64) : Nat :=
  (ip * 0x9e3779b97f4a7c15).toNat >>> (64 - cache.logBuckets)

/-- The first slot of a bucket. -/
def bucketHead (cache : ScriptCache) (bucket : Nat) : Option Nat :=
  (cache.buckets[bucket]?).getD none

/-- Makes all slots unused, in order. -/
def flush (cache : ScriptCache) : ScriptCache :=
  { cache with
    slots := freshSlots cache.slots.size
    buckets := Array.replicate cache.buckets.size none
    oldest := 0
    newest := cache.slots.size - 1
    stats := { cache.stats with flushes := cache.stats.flushes + 1 } }

/-- Forgets all scripts when they are from another generation. -/
def sync (cache : ScriptCache) (generation : UInt64) : ScriptCache :=
  if cache.generation = generation then
    cache
  else
    { cache.flush with generation := generation }

def holds (cache : ScriptCache) (key : CacheKey) (index : Nat) : Bool :=
  match (cache.slot index).entry with
  | some entry => entry.key == key
  | none => false

/-- Follows a chain to the slot that holds a key.  A chain visits no slot
twice, so it is followed for at most as many links as there are slots. -/
def findInChain (cache : ScriptCache) (key : CacheKey) : Nat → Option Nat → Option Nat
  | _, none =>
      none
  | 0, some _ =>
      none
  | links + 1, some index =>
      if cache.holds key index then
        some index
      else
        findInChain cache key links (cache.slot index).chain

def find? (cache : ScriptCache) (key : CacheKey) : Option Nat :=
  cache.findInChain key cache.slots.size (cache.bucketHead (cache.bucketOf key.ip))

/-- Takes a slot other than the most recently used out of the list. -/
def unlink (cache : ScriptCache) (index : Nat) : ScriptCache :=
  let { older, newer, .. } := cache.slot index
  let cache :=
    match older, newer with
    | none, some next => { cache with oldest := next }
    | none, none => cache
    | some previous, _ => cache.modifySlot previous fun slot => { slot with newer := newer }
  match newer with
  | some next => cache.modifySlot next fun slot => { slot with older := older }
  | none => cache

/-- Makes a slot the most recently used. -/
def touch (cache : ScriptCache) (index : Nat) : ScriptCache :=
  if cache.newest = index then
    cache
  else
    let cache := cache.unlink index
    let last := cache.newest
    let cache := cache.modifySlot last fun slot => { slot with newer := some index }
    let cache := cache.modifySlot index fun slot => { slot with older := some last, newer := none }
    { cache with newest := index }

/-- The slot of a chain whose link leads to a slot. -/
def chainPredecessor (cache : ScriptCache) (index : Nat) : Nat → Option Nat → Option Nat
  | _, none =>
      none
  | 0, some _ =>
      none
  | links + 1, some cursor =>
      if (cache.slot cursor).chain = some index then
        some cursor
      else
        chainPredecessor cache index links (cache.slot cursor).chain

def unchain (cache : ScriptCache) (index bucket : Nat) : ScriptCache :=
  let next := (cache.slot index).chain
  if cache.bucketHead bucket = some index then
    { cache with buckets := cache.buckets.setIfInBounds bucket next }
  else
    match cache.chainPredecessor index cache.slots.size (cache.bucketHead bucket) with
    | some cursor => cache.modifySlot cursor fun slot => { slot with chain := next }
    | none => cache

/-- Looks a key up, trying the slot `hint` first.  A hit becomes the most
recently used. -/
def lookup (cache : ScriptCache) (key : CacheKey) (hint : Option Nat) :
    Option (Nat × CacheEntry) × ScriptCache :=
  match (hint.filter (cache.holds key)).or (cache.find? key) with
  | none =>
      (none, { cache with stats := { cache.stats with misses := cache.stats.misses + 1 } })
  | some index =>
      let hit := { cache with stats := { cache.stats with hits := cache.stats.hits + 1 } }
      let after := hit.touch index
      ((after.slot index).entry.map fun entry => (index, entry), after)

def evict (cache : ScriptCache) (index : Nat) : ScriptCache :=
  match (cache.slot index).entry with
  | none =>
      cache
  | some old =>
      let cache := cache.modifySlot index fun slot => { slot with entry := none }
      let cache := cache.unchain index (cache.bucketOf old.key.ip)
      { cache with stats := { cache.stats with evictions := cache.stats.evictions + 1 } }

/-- Puts an entry into an empty slot, at the head of its chain. -/
def occupy (cache : ScriptCache) (index : Nat) (entry : CacheEntry) : ScriptCache :=
  let bucket := cache.bucketOf entry.key.ip
  let next := cache.bucketHead bucket
  let cache := cache.modifySlot index fun slot => { slot with entry := some entry, chain := next }
  { cache with buckets := cache.buckets.setIfInBounds bucket (some index) }

/-- Keeps a script under a key: in the slot that has the key, or in the least
recently used one.  Answers the slot. -/
def insert (cache : ScriptCache) (key : CacheKey) (script : Script) (info : ProcInfo) :
    Nat × ScriptCache :=
  let entry : CacheEntry := ⟨key, script, info⟩
  match cache.find? key with
  | some index =>
      let cache := cache.modifySlot index fun slot => { slot with entry := some entry }
      (index, cache.touch index)
  | none =>
      let index := cache.oldest
      let cache := cache.evict index
      let cache := cache.occupy index entry
      (index, cache.touch index)

end ScriptCache
end StackWalk
