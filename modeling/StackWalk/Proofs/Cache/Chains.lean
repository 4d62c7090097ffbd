import Mathlib.Data.List.Perm.Subperm
import StackWalk.Proofs.Cache.Recency

/-!
# The chains of the hash table

Each bucket begins a chain of slots, and a slot is in the chain of a bucket
exactly when it holds a key of that bucket.  Following a chain for as many
links as there are slots therefore sees every slot that may hold a key, and
taking a slot out of its chain disturbs no other bucket.
-/

namespace StackWalk.ScriptCache

/-! ## Chains -/

/-- The slots of the chain that begins with `start`. -/
def Chain (cache : ScriptCache) : Option Nat → List Nat → Prop
  | start, [] => start = none
  | start, index :: rest => start = some index ∧ cache.Chain (cache.slot index).chain rest

/-- The slot holds a key of the bucket. -/
def InBucket (cache : ScriptCache) (index bucket : Nat) : Prop :=
  ∃ entry, (cache.slot index).entry = some entry ∧ cache.bucketOf entry.key.ip = bucket

/-- Every bucket has a chain of the slots that hold its keys. -/
structure Chained (cache : ScriptCache) : Prop where
  logBuckets : cache.logBuckets ≤ 64
  buckets : cache.buckets.size = 2 ^ cache.logBuckets
  chains : ∀ bucket, ∃ list,
    cache.Chain (cache.bucketHead bucket) list ∧ list.Nodup ∧
      ∀ index, index ∈ list ↔ cache.InBucket index bucket

theorem Chain.of_same_links {first second : ScriptCache} {start : Option Nat} {list : List Nat}
    (h : first.Chain start list)
    (hchain : ∀ index ∈ list, (second.slot index).chain = (first.slot index).chain) :
    second.Chain start list := by
  induction list generalizing start with
  | nil => exact h
  | cons index rest ih =>
      obtain ⟨hstart, hrest⟩ := h
      refine ⟨hstart, ?_⟩
      rw [hchain index (by simp)]
      apply ih hrest
      intro other hother
      exact hchain other (by simp [hother])

theorem lt_size_of_entry {cache : ScriptCache} {index : Nat} {entry : CacheEntry}
    (h : (cache.slot index).entry = some entry) : index < cache.slots.size := by
  by_contra hindex
  have hslot : cache.slot index = default := by simp [slot, hindex]
  rw [hslot] at h
  cases h

theorem InBucket.lt_size {cache : ScriptCache} {index bucket : Nat}
    (h : cache.InBucket index bucket) : index < cache.slots.size := by
  obtain ⟨entry, hentry, -⟩ := h
  exact lt_size_of_entry hentry

theorem length_le_of_inBucket {cache : ScriptCache} {list : List Nat} {bucket : Nat}
    (hnodup : list.Nodup) (hlist : ∀ index ∈ list, cache.InBucket index bucket) :
    list.length ≤ cache.slots.size := by
  have hsubset : list ⊆ List.range cache.slots.size :=
    fun index hindex => List.mem_range.mpr (hlist index hindex).lt_size
  simpa using (hnodup.subperm hsubset).length_le

theorem InBucket.unique {cache : ScriptCache} {index first second : Nat}
    (h₁ : cache.InBucket index first) (h₂ : cache.InBucket index second) : first = second := by
  obtain ⟨entry, hentry, rfl⟩ := h₁
  obtain ⟨other, hother, rfl⟩ := h₂
  rw [hentry] at hother
  cases hother
  rfl

theorem Chained.bucketOf_lt {cache : ScriptCache} (h : cache.Chained) (ip : UInt64) :
    cache.bucketOf ip < cache.buckets.size := by
  unfold bucketOf
  rw [h.buckets, Nat.shiftRight_eq_div_pow]
  apply Nat.div_lt_of_lt_mul
  rw [← pow_add, Nat.sub_add_cancel h.logBuckets]
  exact UInt64.toNat_lt _

theorem Chained.of_sameTable {first second : ScriptCache} (h : first.Chained)
    (hsame : SameTable first second) : second.Chained where
  logBuckets := by
    rw [hsame.logBuckets]
    exact h.logBuckets
  buckets := by
    rw [hsame.buckets, hsame.logBuckets]
    exact h.buckets
  chains bucket := by
    obtain ⟨list, hchain, hnodup, hmem⟩ := h.chains bucket
    refine ⟨list, ?_, hnodup, ?_⟩
    · unfold bucketHead
      rw [hsame.buckets]
      exact hchain.of_same_links fun index _ => hsame.chain index
    · intro index
      rw [hmem]
      unfold InBucket bucketOf
      rw [hsame.entry, hsame.logBuckets]

theorem chained_fresh {cache : ScriptCache} {count : Nat} (h : cache.slots = freshSlots count)
    (hbuckets : cache.buckets = Array.replicate (2 ^ cache.logBuckets) none)
    (hlogBuckets : cache.logBuckets ≤ 64) : cache.Chained where
  logBuckets := hlogBuckets
  buckets := by rw [hbuckets, Array.size_replicate]
  chains bucket := by
    refine ⟨[], ?_, List.nodup_nil, ?_⟩
    · unfold bucketHead Chain
      rw [hbuckets, Array.getElem?_replicate]
      split <;> rfl
    · intro index
      simp [InBucket, entry_fresh h]

/-! ## Finding a key -/

theorem holds_iff {cache : ScriptCache} {key : CacheKey} {index : Nat} :
    cache.holds key index = true ↔
      ∃ entry, (cache.slot index).entry = some entry ∧ entry.key = key := by
  unfold holds
  cases (cache.slot index).entry <;> simp

theorem findInChain_eq_find? {cache : ScriptCache} {key : CacheKey} {links : Nat}
    {start : Option Nat} {list : List Nat} (h : cache.Chain start list)
    (hlinks : list.length ≤ links) :
    cache.findInChain key links start = list.find? (cache.holds key) := by
  induction list generalizing links start with
  | nil =>
      cases h
      cases links <;> rfl
  | cons index rest ih =>
      obtain ⟨rfl, hrest⟩ := h
      cases links with
      | zero => simp at hlinks
      | succ links =>
          unfold findInChain
          rw [List.find?_cons, ih hrest (by simpa using hlinks)]
          cases cache.holds key index <;> rfl

/-- Looking for a key finds a slot that holds it, if there is one. -/
theorem Chained.find?_spec {cache : ScriptCache} (h : cache.Chained) (key : CacheKey) :
    match cache.find? key with
    | some index => cache.holds key index = true
    | none => ∀ index, cache.holds key index = false := by
  obtain ⟨list, hchain, hnodup, hmem⟩ := h.chains (cache.bucketOf key.ip)
  have hlength := length_le_of_inBucket hnodup fun index => (hmem index).mp
  unfold find?
  rw [findInChain_eq_find? hchain hlength]
  cases hfound : list.find? (cache.holds key) with
  | some index => exact List.find?_some hfound
  | none =>
      intro index
      by_contra hheld
      obtain ⟨entry, hentry, hkey⟩ := holds_iff.mp (by simpa using hheld)
      have hindex : index ∈ list := (hmem index).mpr ⟨entry, hentry, by rw [hkey]⟩
      exact hheld (by simpa using List.find?_eq_none.mp hfound index hindex)

/-! ## Taking a slot out of its chain -/

theorem Chain.start_eq {cache : ScriptCache} {start : Option Nat} {list : List Nat}
    (h : cache.Chain start list) : start = list.head? := by
  cases list with
  | nil => exact h
  | cons index rest => exact h.1

theorem head?_ne_of_nodup {before rest : List Nat} {previous index : Nat}
    (h : (before ++ previous :: index :: rest).Nodup) :
    (before ++ previous :: index :: rest).head? ≠ some index := by
  rw [List.head?_append, List.head?_cons]
  intro hhead
  have hmem : index ∈ before ++ [previous] := by
    rcases Option.or_eq_some_iff.mp hhead with hbefore | ⟨-, hprevious⟩
    · exact List.mem_append_left _ (List.mem_of_mem_head? hbefore)
    · simp [Option.some.inj hprevious]
  rw [List.append_cons, List.nodup_append] at h
  exact h.2.2 index hmem index (by simp) rfl

theorem chainPredecessor_eq {cache : ScriptCache} {start : Option Nat} {before rest : List Nat}
    {previous index links : Nat} (h : cache.Chain start (before ++ previous :: index :: rest))
    (hnodup : (before ++ previous :: index :: rest).Nodup) (hlinks : before.length < links) :
    cache.chainPredecessor index links start = some previous := by
  induction before generalizing links start with
  | nil =>
      obtain ⟨rfl, hlink, -⟩ := h
      cases links with
      | zero => simp at hlinks
      | succ links =>
          unfold chainPredecessor
          rw [if_pos hlink]
  | cons first others ih =>
      obtain ⟨rfl, hrest⟩ := h
      have hnodup := (List.nodup_cons.mp hnodup).2
      cases links with
      | zero => simp at hlinks
      | succ links =>
          have hlink : (cache.slot first).chain ≠ some index := by
            rw [hrest.start_eq]
            exact head?_ne_of_nodup hnodup
          unfold chainPredecessor
          rw [if_neg hlink]
          exact ih hrest hnodup (by simpa using hlinks)

theorem Chain.without {first second : ScriptCache} {start : Option Nat} {before rest : List Nat}
    {previous index : Nat} (h : first.Chain start (before ++ previous :: index :: rest))
    (hprevious : (second.slot previous).chain = (first.slot index).chain)
    (hchain : ∀ other ∈ before ++ rest, (second.slot other).chain = (first.slot other).chain) :
    second.Chain start (before ++ previous :: rest) := by
  induction before generalizing start with
  | nil =>
      obtain ⟨hstart, -, hrest⟩ := h
      refine ⟨hstart, ?_⟩
      rw [hprevious]
      exact hrest.of_same_links (by simpa using hchain)
  | cons head others ih =>
      obtain ⟨hstart, hrest⟩ := h
      refine ⟨hstart, ?_⟩
      rw [hchain head (by simp)]
      apply ih hrest
      intro other hother
      exact hchain other (by simp [List.mem_append.mp hother])

/-- The two caches differ in their chains alone. -/
structure SameButChains (first second : ScriptCache) : Prop extends SameOrder first second where
  entry : ∀ index, (second.slot index).entry = (first.slot index).entry
  bucketCount : second.buckets.size = first.buckets.size
  logBuckets : second.logBuckets = first.logBuckets
  generation : second.generation = first.generation
  stats : second.stats = first.stats

theorem unchain_sameButChains (cache : ScriptCache) (index bucket : Nat) :
    SameButChains cache (cache.unchain index bucket) := by
  unfold unchain
  dsimp only
  split
  · exact ⟨⟨rfl, fun _ => rfl, fun _ => rfl, rfl, rfl⟩, fun _ => rfl, by simp, rfl, rfl, rfl⟩
  · split
    · refine ⟨sameOrder_modifySlot _ _ _ (fun _ => rfl) (fun _ => rfl), ?_, rfl, rfl, rfl, rfl⟩
      intro other
      rw [slot_modifySlot]
      split <;> rfl
    · exact ⟨⟨rfl, fun _ => rfl, fun _ => rfl, rfl, rfl⟩, fun _ => rfl, rfl, rfl, rfl, rfl⟩

/-- Unchaining takes one slot out of the chain of the bucket and leaves the
other chains as they were. -/
theorem unchain_spec {cache : ScriptCache} {index bucket : Nat} {list : List Nat}
    (hchain : cache.Chain (cache.bucketHead bucket) list) (hnodup : list.Nodup)
    (hindex : index ∈ list) (hlist : ∀ other ∈ list, other < cache.slots.size)
    (hlength : list.length ≤ cache.slots.size) (hbucket : bucket < cache.buckets.size) :
    (cache.unchain index bucket).Chain ((cache.unchain index bucket).bucketHead bucket)
        (list.erase index) ∧
      (∀ other ≠ bucket,
        (cache.unchain index bucket).bucketHead other = cache.bucketHead other) ∧
      ∀ other ∉ list, ((cache.unchain index bucket).slot other).chain =
        (cache.slot other).chain := by
  obtain ⟨before, rest, rfl⟩ := List.append_of_mem hindex
  have hbefore : index ∉ before := by
    intro hmem
    exact (List.nodup_append.mp hnodup).2.2 index hmem index (by simp) rfl
  rw [List.erase_append_right _ hbefore, List.erase_cons_head]
  rcases List.eq_nil_or_concat' before with rfl | ⟨init, previous, rfl⟩
  · obtain ⟨hstart, hrest⟩ := hchain
    have hunchain : cache.unchain index bucket =
        { cache with
          buckets := cache.buckets.setIfInBounds bucket (cache.slot index).chain } :=
      if_pos hstart
    rw [hunchain]
    refine ⟨?_, ?_, fun _ _ => rfl⟩
    · have hhead : ({ cache with
          buckets := cache.buckets.setIfInBounds bucket (cache.slot index).chain } :
            ScriptCache).bucketHead bucket = (cache.slot index).chain := by
        simp [bucketHead, hbucket]
      rw [hhead]
      exact hrest.of_same_links fun _ _ => rfl
    · intro other hother
      simp [bucketHead, Ne.symm hother]
  · rw [List.append_assoc, List.singleton_append] at *
    have hhead : cache.bucketHead bucket ≠ some index := by
      rw [hchain.start_eq]
      exact head?_ne_of_nodup hnodup
    have hunchain : cache.unchain index bucket =
        cache.modifySlot previous fun slot =>
          { slot with chain := (cache.slot index).chain } := by
      unfold unchain
      dsimp only
      rw [if_neg hhead, chainPredecessor_eq hchain hnodup (by simp at hlength; omega)]
    have hprevious : previous < cache.slots.size := hlist previous (by simp)
    have hother : ∀ other, previous ≠ other →
        ((cache.unchain index bucket).slot other).chain = (cache.slot other).chain := by
      intro other hne
      rw [hunchain, slot_modifySlot, if_neg fun h => hne h.1]
    refine ⟨?_, ?_, ?_⟩
    · have hstart : (cache.unchain index bucket).bucketHead bucket = cache.bucketHead bucket := by
        rw [hunchain]
        rfl
      rw [hstart]
      apply hchain.without
      · rw [hunchain, slot_modifySlot, if_pos ⟨rfl, hprevious⟩]
      · intro other hmem
        apply hother
        rintro rfl
        have hperm : List.Perm (init ++ previous :: index :: rest)
            (previous :: (init ++ index :: rest)) := List.perm_middle
        have hnotin := (List.nodup_cons.mp (hperm.nodup_iff.mp hnodup)).1
        rcases List.mem_append.mp hmem with hinit | hrest
        · exact hnotin (List.mem_append_left _ hinit)
        · exact hnotin (List.mem_append_right _ (List.mem_cons_of_mem _ hrest))
    · intro other _
      rw [hunchain]
      rfl
    · intro other hmem
      apply hother
      rintro rfl
      simp at hmem

/-! ## Emptying a slot -/

/-- The cache with a slot that holds nothing but is still in its chain. -/
def emptied (cache : ScriptCache) (index : Nat) : ScriptCache :=
  cache.modifySlot index fun slot => { slot with entry := none }

/-- The cache with a slot that holds nothing and is out of the chain of `ip`. -/
def detached (cache : ScriptCache) (index : Nat) (ip : UInt64) : ScriptCache :=
  (cache.emptied index).unchain index ((cache.emptied index).bucketOf ip)

theorem evict_of_empty {cache : ScriptCache} {index : Nat}
    (h : (cache.slot index).entry = none) : cache.evict index = cache := by
  unfold evict
  rw [h]

theorem evict_of_entry {cache : ScriptCache} {index : Nat} {old : CacheEntry}
    (h : (cache.slot index).entry = some old) :
    cache.evict index =
      { cache.detached index old.key.ip with
        stats :=
          { (cache.detached index old.key.ip).stats with
            evictions := (cache.detached index old.key.ip).stats.evictions + 1 } } := by
  unfold evict
  rw [h]
  rfl

theorem sameTable_stats (cache : ScriptCache) (stats : CacheStats) :
    SameTable cache { cache with stats := stats } :=
  ⟨fun _ => rfl, fun _ => rfl, rfl, rfl⟩

theorem sameOrder_stats (cache : ScriptCache) (stats : CacheStats) :
    SameOrder cache { cache with stats := stats } :=
  ⟨rfl, fun _ => rfl, fun _ => rfl, rfl, rfl⟩

theorem generation_stats (cache : ScriptCache) (stats : CacheStats) :
    ({ cache with stats := stats } : ScriptCache).generation = cache.generation := rfl

theorem stats_stats (cache : ScriptCache) (stats : CacheStats) :
    ({ cache with stats := stats } : ScriptCache).stats = stats := rfl

theorem detached_sameButChains (cache : ScriptCache) (index : Nat) (ip : UInt64) :
    SameButChains (cache.emptied index) (cache.detached index ip) :=
  unchain_sameButChains ..

@[simp] theorem size_emptied (cache : ScriptCache) (index : Nat) :
    (cache.emptied index).slots.size = cache.slots.size := by
  simp [emptied, modifySlot]

theorem entry_emptied (cache : ScriptCache) (index other : Nat) :
    ((cache.emptied index).slot other).entry =
      if other = index then none else (cache.slot other).entry := by
  unfold emptied
  rw [slot_modifySlot]
  by_cases hother : index = other
  · subst hother
    by_cases hindex : index < cache.slots.size
    · rw [if_pos ⟨rfl, hindex⟩, if_pos rfl]
    · have hslot : cache.slot index = default := by simp [slot, hindex]
      rw [if_neg fun hboth => hindex hboth.2, if_pos rfl, hslot]
      rfl
  · rw [if_neg fun hboth => hother hboth.1, if_neg (Ne.symm hother)]

theorem chain_emptied (cache : ScriptCache) (index other : Nat) :
    ((cache.emptied index).slot other).chain = (cache.slot other).chain := by
  unfold emptied
  rw [slot_modifySlot]
  split <;> rfl

theorem entry_evict (cache : ScriptCache) (index other : Nat) :
    ((cache.evict index).slot other).entry =
      if other = index then none else (cache.slot other).entry := by
  cases h : (cache.slot index).entry with
  | none =>
      rw [evict_of_empty h]
      split
      · rename_i hother
        rw [hother, h]
      · rfl
  | some old =>
      rw [evict_of_entry h, ← entry_emptied, (sameTable_stats _ _).entry]
      exact (detached_sameButChains cache index old.key.ip).entry other

theorem evict_sameOrder (cache : ScriptCache) (index : Nat) :
    SameOrder cache (cache.evict index) := by
  cases h : (cache.slot index).entry with
  | none =>
      rw [evict_of_empty h]
      exact ⟨rfl, fun _ => rfl, fun _ => rfl, rfl, rfl⟩
  | some old =>
      have hemptied : SameOrder cache (cache.emptied index) :=
        sameOrder_modifySlot _ _ _ (fun _ => rfl) (fun _ => rfl)
      have hdetached := hemptied.trans
        (detached_sameButChains cache index old.key.ip).toSameOrder
      rw [evict_of_entry h]
      exact hdetached.trans (sameOrder_stats _ _)

/-- What recycling a slot is counted as. -/
theorem evict_counts (cache : ScriptCache) (index : Nat) :
    (cache.evict index).generation = cache.generation ∧
      (cache.evict index).stats =
        match (cache.slot index).entry with
        | none => cache.stats
        | some _ => { cache.stats with evictions := cache.stats.evictions + 1 } := by
  cases h : (cache.slot index).entry with
  | none =>
      rw [evict_of_empty h]
      exact ⟨rfl, rfl⟩
  | some old =>
      have hsame := detached_sameButChains cache index old.key.ip
      have hgeneration : (cache.detached index old.key.ip).generation = cache.generation :=
        hsame.generation.trans rfl
      have hstats : (cache.detached index old.key.ip).stats = cache.stats :=
        hsame.stats.trans rfl
      rw [evict_of_entry h, generation_stats, stats_stats, hgeneration, hstats]
      exact ⟨rfl, rfl⟩

theorem detached_chained {cache : ScriptCache} (h : cache.Chained) {index : Nat}
    {old : CacheEntry} (hentry : (cache.slot index).entry = some old) :
    (cache.detached index old.key.ip).Chained := by
  have hsame := detached_sameButChains cache index old.key.ip
  have hinBucket : ∀ other bucket, (cache.detached index old.key.ip).InBucket other bucket ↔
      other ≠ index ∧ cache.InBucket other bucket := by
    intro other bucket
    unfold InBucket bucketOf
    rw [hsame.entry, entry_emptied, hsame.logBuckets]
    by_cases hother : other = index
    · simp [hother]
    · simp [hother, emptied, modifySlot]
  obtain ⟨list, hchain, hnodup, hmem⟩ := h.chains (cache.bucketOf old.key.ip)
  have hindex : index ∈ list := (hmem index).mpr ⟨old, hentry, rfl⟩
  have hbucketOf : (cache.emptied index).bucketOf old.key.ip = cache.bucketOf old.key.ip := by
    unfold bucketOf emptied modifySlot
    dsimp only
  have hemptied : (cache.emptied index).Chain
      ((cache.emptied index).bucketHead (cache.bucketOf old.key.ip)) list :=
    Chain.of_same_links hchain fun other _ => chain_emptied cache index other
  have hbound : ∀ other ∈ list, other < (cache.emptied index).slots.size := by
    intro other hother
    rw [size_emptied]
    exact ((hmem other).mp hother).lt_size
  have hlength : list.length ≤ (cache.emptied index).slots.size := by
    rw [size_emptied]
    exact length_le_of_inBucket hnodup fun other => (hmem other).mp
  obtain ⟨herased, hheads, hchains⟩ :=
    unchain_spec hemptied hnodup hindex hbound hlength (h.bucketOf_lt old.key.ip)
  rw [← hbucketOf] at herased hheads hchains
  refine ⟨?_, ?_, ?_⟩
  · rw [hsame.logBuckets]
    exact h.logBuckets
  · rw [hsame.bucketCount, hsame.logBuckets]
    exact h.buckets
  · intro bucket
    by_cases hbucket : bucket = cache.bucketOf old.key.ip
    · refine ⟨list.erase index, ?_, hnodup.erase index, ?_⟩
      · rw [hbucket, ← hbucketOf]
        exact herased
      · intro other
        rw [hinBucket, hnodup.mem_erase_iff, hmem, hbucket]
    · obtain ⟨others, hothers, hnodup', hmem'⟩ := h.chains bucket
      have hdisjoint : ∀ other ∈ others, other ∉ list := by
        intro other hother hlist
        exact hbucket (((hmem' other).mp hother).unique ((hmem other).mp hlist))
      refine ⟨others, ?_, hnodup', ?_⟩
      · have hhead : (cache.detached index old.key.ip).bucketHead bucket =
            cache.bucketHead bucket := by
          refine (hheads bucket ?_).trans rfl
          rwa [hbucketOf]
        rw [hhead]
        apply hothers.of_same_links
        intro other hother
        exact (hchains other (hdisjoint other hother)).trans (chain_emptied ..)
      · intro other
        rw [hinBucket, hmem']
        constructor
        · intro hother
          refine ⟨?_, hother⟩
          rintro rfl
          exact hbucket (hother.unique ⟨old, hentry, rfl⟩)
        · exact fun hother => hother.2

theorem evict_chained {cache : ScriptCache} (h : cache.Chained) (index : Nat) :
    (cache.evict index).Chained := by
  cases hentry : (cache.slot index).entry with
  | none =>
      rw [evict_of_empty hentry]
      exact h
  | some old =>
      rw [evict_of_entry hentry]
      exact (detached_chained h hentry).of_sameTable (sameTable_stats _ _)

/-! ## Filling a slot -/

theorem slot_occupy (cache : ScriptCache) (index : Nat) (entry : CacheEntry) (other : Nat) :
    (cache.occupy index entry).slot other =
      if index = other ∧ other < cache.slots.size then
        { cache.slot other with
          entry := some entry, chain := cache.bucketHead (cache.bucketOf entry.key.ip) }
      else
        cache.slot other := by
  have hbuckets (cache : ScriptCache) (buckets : Array (Option Nat)) :
      ({ cache with buckets := buckets } : ScriptCache).slot other = cache.slot other := rfl
  unfold occupy
  rw [hbuckets, slot_modifySlot]

theorem occupy_sameOrder (cache : ScriptCache) (index : Nat) (entry : CacheEntry) :
    SameOrder cache (cache.occupy index entry) where
  size := by simp [occupy, modifySlot]
  older other := by
    rw [slot_occupy]
    split <;> rfl
  newer other := by
    rw [slot_occupy]
    split <;> rfl
  oldest := rfl
  newest := rfl

theorem entry_occupy {cache : ScriptCache} {index : Nat} (hindex : index < cache.slots.size)
    (entry : CacheEntry) (other : Nat) :
    ((cache.occupy index entry).slot other).entry =
      if other = index then some entry else (cache.slot other).entry := by
  rw [slot_occupy]
  by_cases hother : other = index
  · subst hother
    simp [hindex]
  · simp [hother, Ne.symm hother]

theorem occupy_chained {cache : ScriptCache} (h : cache.Chained) {index : Nat}
    (hindex : index < cache.slots.size) (hempty : (cache.slot index).entry = none)
    (entry : CacheEntry) : (cache.occupy index entry).Chained := by
  have hlogBuckets : (cache.occupy index entry).logBuckets = cache.logBuckets := rfl
  have hbuckets : (cache.occupy index entry).buckets =
      cache.buckets.setIfInBounds (cache.bucketOf entry.key.ip) (some index) := rfl
  have hinBucket : ∀ other bucket, (cache.occupy index entry).InBucket other bucket ↔
      (other = index ∧ cache.bucketOf entry.key.ip = bucket) ∨ cache.InBucket other bucket := by
    intro other bucket
    unfold InBucket bucketOf
    rw [entry_occupy hindex, hlogBuckets]
    by_cases hother : other = index
    · simp [hother, hempty]
    · simp [hother]
  have hkept : ∀ bucket (list : List Nat), (∀ other, other ∈ list ↔ cache.InBucket other bucket) →
      ∀ other ∈ list, ((cache.occupy index entry).slot other).chain =
        (cache.slot other).chain := by
    intro bucket list hmem other hother
    have hne : ¬(index = other ∧ other < cache.slots.size) := by
      rintro ⟨rfl, -⟩
      obtain ⟨held, hheld, -⟩ := (hmem index).mp hother
      rw [hempty] at hheld
      cases hheld
    rw [slot_occupy, if_neg hne]
  refine ⟨h.logBuckets, ?_, ?_⟩
  · rw [hbuckets, hlogBuckets, Array.size_setIfInBounds]
    exact h.buckets
  · intro bucket
    obtain ⟨list, hchain, hnodup, hmem⟩ := h.chains bucket
    by_cases hbucket : bucket = cache.bucketOf entry.key.ip
    · subst hbucket
      have hnew : index ∉ list := by
        intro hlist
        obtain ⟨held, hheld, -⟩ := (hmem index).mp hlist
        rw [hempty] at hheld
        cases hheld
      refine ⟨index :: list, ⟨?_, ?_⟩, List.nodup_cons.mpr ⟨hnew, hnodup⟩, ?_⟩
      · have hlt := h.bucketOf_lt entry.key.ip
        unfold bucketHead
        rw [hbuckets, Array.getElem?_setIfInBounds_self_of_lt hlt]
        rfl
      · rw [slot_occupy, if_pos ⟨rfl, hindex⟩]
        exact hchain.of_same_links (hkept _ list hmem)
      · intro other
        rw [hinBucket, List.mem_cons, hmem]
        simp
    · refine ⟨list, ?_, hnodup, ?_⟩
      · have hhead : (cache.occupy index entry).bucketHead bucket = cache.bucketHead bucket := by
          unfold bucketHead
          rw [hbuckets, Array.getElem?_setIfInBounds_ne (Ne.symm hbucket)]
        rw [hhead]
        exact hchain.of_same_links (hkept bucket list hmem)
      · intro other
        rw [hinBucket, hmem]
        simp [Ne.symm hbucket]

/-- The cache with another entry in a slot. -/
def replaced (cache : ScriptCache) (index : Nat) (entry : CacheEntry) : ScriptCache :=
  cache.modifySlot index fun slot => { slot with entry := some entry }

theorem entry_replaced {cache : ScriptCache} {index : Nat} (hindex : index < cache.slots.size)
    (entry : CacheEntry) (other : Nat) :
    ((cache.replaced index entry).slot other).entry =
      if other = index then some entry else (cache.slot other).entry := by
  unfold replaced
  rw [slot_modifySlot]
  by_cases hother : other = index
  · subst hother
    simp [hindex]
  · simp [hother, Ne.symm hother]

theorem replaced_sameOrder (cache : ScriptCache) (index : Nat) (entry : CacheEntry) :
    SameOrder cache (cache.replaced index entry) :=
  sameOrder_modifySlot _ _ _ (fun _ => rfl) (fun _ => rfl)

theorem replaced_chained {cache : ScriptCache} (h : cache.Chained) {index : Nat}
    {old entry : CacheEntry} (hold : (cache.slot index).entry = some old)
    (hkey : entry.key = old.key) : (cache.replaced index entry).Chained := by
  have hlogBuckets : (cache.replaced index entry).logBuckets = cache.logBuckets := rfl
  have hinBucket : ∀ other bucket, (cache.replaced index entry).InBucket other bucket ↔
      cache.InBucket other bucket := by
    intro other bucket
    unfold InBucket bucketOf
    rw [entry_replaced (lt_size_of_entry hold), hlogBuckets]
    by_cases hother : other = index
    · simp [hother, hold, hkey]
    · simp [hother]
  refine ⟨h.logBuckets, h.buckets, ?_⟩
  intro bucket
  obtain ⟨list, hchain, hnodup, hmem⟩ := h.chains bucket
  refine ⟨list, ?_, hnodup, ?_⟩
  · refine Chain.of_same_links hchain ?_
    intro other _
    unfold replaced
    rw [slot_modifySlot]
    split <;> rfl
  · intro other
    rw [hinBucket, hmem]

end StackWalk.ScriptCache
