import StackWalk.Proofs.Cache.Requests

/-!
# Following the links

A cache finds its way by the numbers of slots that its slots and buckets keep.
Whatever it was asked, these numbers are in order: one list runs through all
slots from the least to the most recently used and back, the chains share the
slots that are in use out among the buckets, and no key is kept twice.  So a
loop along a chain comes to an end without asking for a slot or a bucket that
is not there, and bounding its turns by the number of slots changes nothing.
-/

namespace StackWalk.ScriptCache

/-! ## Links -/

/-- Where following a link so many times leads. -/
def follow (link : Nat → Option Nat) (start : Option Nat) : Nat → Option Nat
  | 0 => start
  | turns + 1 => (follow link start turns).bind link

/-- The slot used after a slot. -/
def newerThan (cache : ScriptCache) (index : Nat) : Option Nat :=
  (cache.slot index).newer

/-- The slot used before a slot. -/
def olderThan (cache : ScriptCache) (index : Nat) : Option Nat :=
  (cache.slot index).older

/-- The slot that comes after a slot in its chain. -/
def chainedTo (cache : ScriptCache) (index : Nat) : Option Nat :=
  (cache.slot index).chain

/-- A link that leads from each slot of a list to the one behind it leads along
the whole list, and out of it behind the last. -/
theorem follow_eq_getElem? {link : Nat → Option Nat} {list : List Nat}
    (hlink : ∀ before index after, list = before ++ index :: after → link index = after.head?)
    (turns : Nat) : follow link list.head? turns = list[turns]? := by
  induction turns with
  | zero => exact List.head?_eq_getElem?
  | succ turns ih =>
      rw [follow, ih]
      by_cases hturns : turns < list.length
      · have hsplit : list = list.take turns ++ list[turns] :: list.drop (turns + 1) := by
          rw [List.getElem_cons_drop, List.take_append_drop]
        rw [List.getElem?_eq_getElem hturns, Option.bind_some, hlink _ _ _ hsplit,
          List.head?_drop]
      · rw [List.getElem?_eq_none (by omega), List.getElem?_eq_none (by omega), Option.bind_none]

variable {cache : ScriptCache}

theorem Ordered.follow_newer {order : List Nat} (h : cache.Ordered order) (turns : Nat) :
    follow cache.newerThan (some cache.oldest) turns = order[turns]? := by
  rw [← h.oldest]
  apply follow_eq_getElem?
  rintro before index after rfl
  exact h.links_at.2

/-- The two links of the list are each other's inverse. -/
theorem Ordered.newer_eq_some_iff {order : List Nat} (h : cache.Ordered order)
    (index next : Nat) :
    cache.newerThan index = some next ↔ cache.olderThan next = some index := by
  have hbeyond : ∀ {other}, other ∉ order → cache.slot other = default := by
    intro other hother
    rw [h.mem_iff] at hother
    simp [slot, hother]
  constructor
  · intro hnewer
    have hindex : index ∈ order := by
      by_contra hout
      rw [newerThan, hbeyond hout] at hnewer
      cases hnewer
    obtain ⟨before, after, rfl⟩ := List.append_of_mem hindex
    obtain ⟨rest, rfl⟩ : ∃ rest, after = next :: rest :=
      List.head?_eq_some_iff.mp (h.links_at.2.symm.trans hnewer)
    rw [List.append_cons] at h
    exact h.links_at.1.trans List.getLast?_concat
  · intro holder
    have hnext : next ∈ order := by
      by_contra hout
      rw [olderThan, hbeyond hout] at holder
      cases holder
    obtain ⟨before, after, rfl⟩ := List.append_of_mem hnext
    obtain ⟨init, rfl⟩ : ∃ init, before = init ++ [index] :=
      List.getLast?_eq_some_iff.mp (h.links_at.1.symm.trans holder)
    rw [← List.append_cons] at h
    exact h.links_at.2

theorem Chain.link_at {start : Option Nat} {before after : List Nat} {index : Nat}
    (h : cache.Chain start (before ++ index :: after)) : cache.chainedTo index = after.head? := by
  induction before generalizing start with
  | nil => exact h.2.start_eq
  | cons first rest ih => exact ih h.2

theorem Chain.follow_chain {start : Option Nat} {list : List Nat} (h : cache.Chain start list)
    (turns : Nat) : follow cache.chainedTo start turns = list[turns]? := by
  rw [h.start_eq]
  apply follow_eq_getElem?
  rintro before index after rfl
  exact h.link_at

/-! ## Loops along a chain -/

/-- A loop along a chain to the first slot that passes a test.  It comes to
nothing where it has not ended after so many turns, or asks for a slot that is
not there. -/
def searchChain (cache : ScriptCache) (test : Nat → Bool) :
    Nat → Option Nat → Option (Option Nat)
  | _, none =>
      some none
  | 0, some _ =>
      none
  | turns + 1, some index =>
      if index < cache.slots.size then
        if test index then
          some (some index)
        else
          cache.searchChain test turns (cache.chainedTo index)
      else
        none

theorem Chain.search_eq_find? {test : Nat → Bool} {turns : Nat} {start : Option Nat}
    {list : List Nat} (h : cache.Chain start list)
    (hbound : ∀ index ∈ list, index < cache.slots.size) (hturns : list.length ≤ turns) :
    cache.searchChain test turns start = some (list.find? test) := by
  induction list generalizing turns start with
  | nil =>
      cases h
      cases turns <;> rfl
  | cons index rest ih =>
      obtain ⟨rfl, hrest⟩ := h
      cases turns with
      | zero => simp at hturns
      | succ turns =>
          rw [searchChain, if_pos (hbound index (by simp)), List.find?_cons]
          cases test index with
          | true => rfl
          | false =>
              exact ih hrest (fun other hother => hbound other (List.mem_cons_of_mem _ hother))
                (by simpa using hturns)

/-- The link of a slot leads to a slot. -/
def leadsTo (cache : ScriptCache) (index cursor : Nat) : Bool :=
  cache.chainedTo cursor == some index

theorem chainPredecessor_eq_find? {index links : Nat} {start : Option Nat} {list : List Nat}
    (h : cache.Chain start list) (hlinks : list.length ≤ links) :
    cache.chainPredecessor index links start = list.find? (cache.leadsTo index) := by
  induction list generalizing links start with
  | nil =>
      cases h
      cases links <;> rfl
  | cons cursor rest ih =>
      obtain ⟨rfl, hrest⟩ := h
      cases links with
      | zero => simp at hlinks
      | succ links =>
          rw [chainPredecessor, List.find?_cons, ih hrest (by simpa using hlinks)]
          by_cases hlink : (cache.slot cursor).chain = some index
          · simp [leadsTo, chainedTo, hlink]
          · rw [if_neg hlink, leadsTo, chainedTo, beq_false_of_ne hlink]

/-- Looking for a key asks for slots and a bucket that are there, and ends. -/
structure FindEnds (cache : ScriptCache) (key : CacheKey) : Prop where
  bucket_lt : cache.bucketOf key.ip < cache.buckets.size
  loop : cache.searchChain (cache.holds key) cache.slots.size
    (cache.bucketHead (cache.bucketOf key.ip)) = some (cache.find? key)

/-- Taking a slot out of its chain asks for slots and a bucket that are there,
and ends: the bucket begins with the slot, or there is a slot before it. -/
structure UnchainEnds (cache : ScriptCache) (index bucket : Nat) : Prop where
  slot_lt : index < cache.slots.size
  bucket_lt : bucket < cache.buckets.size
  loop : cache.bucketHead bucket = some index ∨
    ∃ cursor, cache.searchChain (cache.leadsTo index) cache.slots.size (cache.bucketHead bucket) =
        some (some cursor) ∧
      cache.chainPredecessor index cache.slots.size (cache.bucketHead bucket) = some cursor

theorem Chained.find_ends (h : cache.Chained) (key : CacheKey) : cache.FindEnds key := by
  obtain ⟨list, hchain, hnodup, hmem⟩ := h.chains (cache.bucketOf key.ip)
  have hlength := length_le_of_inBucket hnodup fun index => (hmem index).mp
  refine ⟨h.bucketOf_lt key.ip, ?_⟩
  rw [find?, findInChain_eq_find? hchain hlength]
  exact hchain.search_eq_find? (fun index hindex => ((hmem index).mp hindex).lt_size) hlength

/-- When a slot is recycled its entry is gone before it leaves its chain. -/
theorem Chained.unchain_ends (h : cache.Chained) {index : Nat} {old : CacheEntry}
    (hentry : (cache.slot index).entry = some old) :
    (cache.emptied index).UnchainEnds index ((cache.emptied index).bucketOf old.key.ip) := by
  have hbucketOf : (cache.emptied index).bucketOf old.key.ip = cache.bucketOf old.key.ip := rfl
  have hhead : (cache.emptied index).bucketHead (cache.bucketOf old.key.ip) =
      cache.bucketHead (cache.bucketOf old.key.ip) := rfl
  obtain ⟨list, hchain, hnodup, hmem⟩ := h.chains (cache.bucketOf old.key.ip)
  have hlength := length_le_of_inBucket hnodup fun index => (hmem index).mp
  have hemptied := hchain.of_same_links fun other _ => chain_emptied cache index other
  have hindex : index ∈ list := (hmem index).mpr ⟨old, hentry, rfl⟩
  have hinside : ∀ other ∈ list, other < (cache.emptied index).slots.size := by
    intro other hother
    rw [size_emptied]
    exact ((hmem other).mp hother).lt_size
  rw [hbucketOf]
  refine ⟨hinside index hindex, h.bucketOf_lt old.key.ip, ?_⟩
  rw [hhead, size_emptied]
  obtain ⟨before, rest, rfl⟩ := List.append_of_mem hindex
  rcases List.eq_nil_or_concat' before with rfl | ⟨init, previous, rfl⟩
  · exact .inl hchain.1
  · rw [List.append_assoc, List.singleton_append] at *
    have hlinked : (cache.emptied index).chainPredecessor index cache.slots.size
        (cache.bucketHead (cache.bucketOf old.key.ip)) = some previous :=
      chainPredecessor_eq hemptied hnodup (by simp at hlength; omega)
    refine .inr ⟨previous, ?_, hlinked⟩
    rw [hemptied.search_eq_find? hinside hlength, ← chainPredecessor_eq_find? hemptied hlength,
      hlinked]

/-! ## The whole structure -/

/-- The links of a cache are in order. -/
structure Sound (cache : ScriptCache) : Prop where
  /-- From the oldest slot on the list visits every slot once, the empty ones
  first, and ends at the newest. -/
  recency : ∃ empty occupied : List Nat,
    (empty ++ occupied).Perm (List.range cache.slots.size) ∧
      (∀ turns, follow cache.newerThan (some cache.oldest) turns = (empty ++ occupied)[turns]?) ∧
      (empty ++ occupied).getLast? = some cache.newest ∧
      (∀ index ∈ empty, (cache.slot index).entry = none) ∧
      ∀ index ∈ occupied, (cache.slot index).entry.isSome = true
  inverse : ∀ index next, cache.newerThan index = some next ↔ cache.olderThan next = some index
  /-- The chain of a bucket visits the slots that hold its keys, each once. -/
  chains : ∀ bucket < cache.buckets.size, ∃ list : List Nat,
    list.Nodup ∧
      (∀ turns, follow cache.chainedTo (cache.bucketHead bucket) turns = list[turns]?) ∧
      ∀ index, index ∈ list ↔
        ∃ entry, (cache.slot index).entry = some entry ∧ cache.bucketOf entry.key.ip = bucket
  bucketOf_lt : ∀ ip, cache.bucketOf ip < cache.buckets.size
  keys : ∀ first second entry other, (cache.slot first).entry = some entry →
    (cache.slot second).entry = some other → entry.key = other.key → first = second

variable {map : LruMap} {unused used : List Nat}

theorem Represents.key_injective (h : cache.Represents map unused used)
    {first second : Nat} {entry other : CacheEntry} (hfirst : (cache.slot first).entry = some entry)
    (hsecond : (cache.slot second).entry = some other) (hkey : entry.key = other.key) :
    first = second := by
  have hmem : ∀ {index entry}, (cache.slot index).entry = some entry → index ∈ used := by
    intro index entry hentry
    obtain ⟨before, after, -, -, rfl, -⟩ := h.split hentry
    simp
  have hkeys : (used.map fun index => (cache.slot index).entry.map (·.key)).Nodup := by
    have hused := congrArg (List.map (Option.map (·.key))) h.used
    rw [List.map_map, List.map_map] at hused
    have hsome : map.entries.map (Option.map (·.key) ∘ some) =
        (map.entries.map (·.key)).map some := by
      rw [List.map_map]
      rfl
    rw [show (fun index => (cache.slot index).entry.map (·.key)) =
      Option.map (·.key) ∘ fun index => (cache.slot index).entry from rfl, hused, hsome]
    exact h.keys.map (Option.some_injective _)
  apply List.inj_on_of_nodup_map hkeys (hmem hfirst) (hmem hsecond)
  rw [hfirst, hsecond, Option.map_some, Option.map_some, hkey]

theorem Represents.sound (h : cache.Represents map unused used) : cache.Sound where
  recency := by
    refine ⟨unused, used, ?_, h.ordered.follow_newer, h.ordered.newest, h.unused, ?_⟩
    · apply (List.perm_ext_iff_of_nodup h.ordered.nodup List.nodup_range).mpr
      intro index
      rw [h.ordered.mem_iff, List.mem_range]
    · intro index hindex
      have hentry : (cache.slot index).entry ∈ map.entries.map some := by
        rw [← h.used]
        exact List.mem_map_of_mem hindex
      obtain ⟨entry, -, hentry⟩ := List.mem_map.mp hentry
      rw [← hentry, Option.isSome_some]
  inverse := h.ordered.newer_eq_some_iff
  chains bucket _ := by
    obtain ⟨list, hchain, hnodup, hmem⟩ := h.chained.chains bucket
    exact ⟨list, hnodup, hchain.follow_chain, hmem⟩
  bucketOf_lt := h.chained.bucketOf_lt
  keys _ _ _ _ := h.key_injective

/-- Whatever a cache was asked its links are in order, and the numbers of its
slots are small.  So looking for a key ends inside its tables, and so does
taking the slot out of its chain that is recycled next. -/
theorem serveAll_sound (capacity : Nat) (requests : List CacheRequest) :
    let cache := ((make capacity).serveAll requests).2
    cache.slots.size = clampCapacity capacity ∧ cache.slots.size ≤ maxCapacity ∧
      cache.Sound ∧
      (∀ key, cache.FindEnds key) ∧
      ∀ old, (cache.slot cache.oldest).entry = some old →
        (cache.emptied cache.oldest).UnchainEnds cache.oldest
          ((cache.emptied cache.oldest).bucketOf old.key.ip) := by
  obtain ⟨-, ⟨unused, used, h⟩, -⟩ := (Represents.make capacity).serveAll requests
  have hsize : (((make capacity).serveAll requests).2).slots.size = clampCapacity capacity :=
    h.capacity.symm.trans (LruMap.capacity_serveAll _ requests)
  refine ⟨hsize, ?_, h.sound, h.chained.find_ends, fun old hentry => h.chained.unchain_ends hentry⟩
  rw [hsize]
  exact Nat.min_le_right _ _

/-! ## One bucket -/

/-- With four buckets the entries of the addresses 1 and 6 share one. -/
def sharingEntry (ip : UInt64) : CacheEntry where
  key := ⟨ip, {}⟩
  script := ⟨.expression 0, [], 0, 0, false, false⟩
  info := { start := ip, stop := ip + 1 }

def sharingInserts : List CacheRequest :=
  [1, 6].map fun ip =>
    .insert (sharingEntry ip).key (sharingEntry ip).script (sharingEntry ip).info

/-- The slot that is recycled next is the last of the chain, and is taken out of
it behind the other one. -/
theorem serveAll_sound_sharing :
    (((make 2).serveAll sharingInserts).2.slot 0).entry = some (sharingEntry 1) ∧
      (((make 2).serveAll sharingInserts).2.emptied 0).UnchainEnds 0 2 := by
  have hentry : (((make 2).serveAll sharingInserts).2.slot 0).entry = some (sharingEntry 1) := by
    decide
  exact ⟨hentry, (serveAll_sound 2 sharingInserts).2.2.2.2 (sharingEntry 1) hentry⟩

end StackWalk.ScriptCache
