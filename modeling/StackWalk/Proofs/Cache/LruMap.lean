import StackWalk.Proofs.Cache.Chains

/-!
# The cache as a map

Seen from outside the cache is a list of entries in the order of their use,
which holds at most as many as there are slots.  The hint of a lookup only
saves time, and where the entries are kept shows nowhere.  The list of slots
that carries this is the unused ones, which come first, and then those of the
entries in the same order.
-/

namespace StackWalk

/-- A map that forgets the entry used least recently when it is full. -/
structure LruMap where
  capacity : Nat
  /-- The entries, the least recently used first. -/
  entries : List CacheEntry
  generation : UInt64
  stats : CacheStats

namespace LruMap

/-- A map without entries. -/
def make (capacity : Nat) : LruMap where
  capacity := capacity
  entries := []
  generation := 0
  stats := ⟨0, 0, 0, 0⟩

/-- The entry with a key. -/
def find? (map : LruMap) (key : CacheKey) : Option CacheEntry :=
  map.entries.find? (·.key == key)

/-- The entries with other keys. -/
def without (map : LruMap) (key : CacheKey) : List CacheEntry :=
  map.entries.filter (·.key != key)

/-- Looks a key up; a hit becomes the most recently used. -/
def lookup (map : LruMap) (key : CacheKey) : Option CacheEntry × LruMap :=
  match map.find? key with
  | some entry =>
      (some entry,
        { map with
          entries := map.without key ++ [entry]
          stats := { map.stats with hits := map.stats.hits + 1 } })
  | none =>
      (none, { map with stats := { map.stats with misses := map.stats.misses + 1 } })

/-- Keeps an entry in place of the one with the same key, if there is one, or
else of the least recently used one, if the map is full. -/
def insert (map : LruMap) (entry : CacheEntry) : LruMap :=
  match map.find? entry.key with
  | some _ =>
      { map with entries := map.without entry.key ++ [entry] }
  | none =>
      if map.entries.length < map.capacity then
        { map with entries := map.entries ++ [entry] }
      else
        { map with
          entries := map.entries.tail ++ [entry]
          stats := { map.stats with evictions := map.stats.evictions + 1 } }

/-- Forgets all entries. -/
def flush (map : LruMap) : LruMap :=
  { map with entries := [], stats := { map.stats with flushes := map.stats.flushes + 1 } }

/-- Forgets all entries when they are from another generation. -/
def sync (map : LruMap) (generation : UInt64) : LruMap :=
  if map.generation = generation then
    map
  else
    { map.flush with generation := generation }

theorem key_ne_of_nodup {before after : List CacheEntry} {entry : CacheEntry}
    (h : ((before ++ entry :: after).map (·.key)).Nodup) :
    ∀ other ∈ before ++ after, other.key ≠ entry.key := by
  intro other hother hkey
  rw [List.map_append, List.map_cons, List.nodup_middle, ← List.map_append] at h
  exact (List.nodup_cons.mp h).1 (hkey ▸ List.mem_map_of_mem hother)

theorem find?_eq_some {map : LruMap} {before after : List CacheEntry} {entry : CacheEntry}
    (hentries : map.entries = before ++ entry :: after)
    (hkeys : (map.entries.map (·.key)).Nodup) : map.find? entry.key = some entry := by
  rw [hentries] at hkeys
  have hbefore : before.find? (·.key == entry.key) = none := by
    apply List.find?_eq_none.mpr
    intro other hother
    simpa using key_ne_of_nodup hkeys other (List.mem_append_left _ hother)
  unfold find?
  rw [hentries, List.find?_append, hbefore, List.find?_cons_of_pos (by simp)]
  rfl

theorem without_eq {map : LruMap} {before after : List CacheEntry} {entry : CacheEntry}
    (hentries : map.entries = before ++ entry :: after)
    (hkeys : (map.entries.map (·.key)).Nodup) : map.without entry.key = before ++ after := by
  rw [hentries] at hkeys
  have hne := key_ne_of_nodup hkeys
  unfold without
  rw [hentries, List.filter_append, List.filter_cons_of_neg (by simp), ← List.filter_append]
  apply List.filter_eq_self.mpr
  intro other hother
  simpa using hne other hother

/-! ## What is in a map -/

theorem mem_without {map : LruMap} {key : CacheKey} {entry : CacheEntry} :
    entry ∈ map.without key ↔ entry ∈ map.entries ∧ entry.key ≠ key := by
  simp [without]

theorem mem_of_lookup_eq_some {map : LruMap} {key : CacheKey} {entry : CacheEntry}
    (h : (map.lookup key).1 = some entry) : entry ∈ map.entries ∧ entry.key = key := by
  have hfound : map.find? key = some entry := by
    unfold lookup at h
    split at h
    · rename_i hfound
      exact hfound.trans h
    · cases h
  exact ⟨List.mem_of_find?_eq_some hfound, by simpa using List.find?_some hfound⟩

theorem mem_of_mem_lookup {map : LruMap} {key : CacheKey} {entry : CacheEntry}
    (h : entry ∈ (map.lookup key).2.entries) : entry ∈ map.entries := by
  unfold lookup at h
  split at h
  · rename_i found hfound
    rcases List.mem_append.mp h with h | h
    · exact (mem_without.mp h).1
    · obtain rfl := List.mem_singleton.mp h
      exact List.mem_of_find?_eq_some hfound
  · exact h

theorem mem_of_mem_insert {map : LruMap} {entry other : CacheEntry}
    (h : other ∈ (map.insert entry).entries) : other ∈ map.entries ∨ other = entry := by
  have hconcat : ∀ kept : List CacheEntry, (∀ held ∈ kept, held ∈ map.entries) →
      other ∈ kept ++ [entry] → other ∈ map.entries ∨ other = entry := by
    intro kept hkept hother
    rcases List.mem_append.mp hother with hother | hother
    · exact Or.inl (hkept other hother)
    · exact Or.inr (List.mem_singleton.mp hother)
  unfold insert at h
  split at h
  · exact hconcat _ (fun held hheld => (mem_without.mp hheld).1) h
  · split at h
    · exact hconcat _ (fun held hheld => hheld) h
    · exact hconcat _ (fun held hheld => List.mem_of_mem_tail hheld) h

@[simp] theorem generation_lookup (map : LruMap) (key : CacheKey) :
    (map.lookup key).2.generation = map.generation := by
  unfold lookup
  split <;> rfl

@[simp] theorem generation_insert (map : LruMap) (entry : CacheEntry) :
    (map.insert entry).generation = map.generation := by
  unfold insert
  split
  · rfl
  · split <;> rfl

@[simp] theorem generation_sync (map : LruMap) (generation : UInt64) :
    (map.sync generation).generation = generation := by
  unfold sync
  split
  · assumption
  · rfl

theorem mem_of_mem_sync {map : LruMap} {generation : UInt64} {entry : CacheEntry}
    (h : entry ∈ (map.sync generation).entries) :
    map.generation = generation ∧ entry ∈ map.entries := by
  unfold sync at h
  split at h
  · exact ⟨‹_›, h⟩
  · cases h

end LruMap

namespace ScriptCache

/-- The map that a cache is: its unused slots and those of the entries, in the
order of use. -/
structure Represents (cache : ScriptCache) (map : LruMap) (unused used : List Nat) : Prop where
  ordered : cache.Ordered (unused ++ used)
  chained : cache.Chained
  unused : ∀ index ∈ unused, (cache.slot index).entry = none
  used : used.map (fun index => (cache.slot index).entry) = map.entries.map some
  keys : (map.entries.map (·.key)).Nodup
  capacity : map.capacity = cache.slots.size
  generation : map.generation = cache.generation
  stats : map.stats = cache.stats

namespace Represents

variable {cache : ScriptCache} {map : LruMap} {unused used before after : List Nat}
  {first last : List CacheEntry} {index : Nat} {entry : CacheEntry}

/-- A slot with an entry is where the entry is in the order of use. -/
theorem split (h : cache.Represents map unused used) (hentry : (cache.slot index).entry = some entry) :
    ∃ before after first last,
      used = before ++ index :: after ∧ map.entries = first ++ entry :: last ∧
      before.map (fun index => (cache.slot index).entry) = first.map some ∧
      after.map (fun index => (cache.slot index).entry) = last.map some := by
  have hindex : index ∈ used := by
    rcases List.mem_append.mp ((h.ordered.mem_iff index).mpr (lt_size_of_entry hentry)) with
      hunused | hused
    · have hempty := h.unused index hunused
      rw [hentry] at hempty
      cases hempty
    · exact hused
  obtain ⟨before, after, rfl⟩ := List.append_of_mem hindex
  have hused := h.used
  rw [List.map_append, List.map_cons, hentry] at hused
  obtain ⟨first, rest, hentries, hfirst, hrest⟩ := List.map_eq_append_iff.mp hused.symm
  obtain ⟨entry', last, rfl, hentry', hlast⟩ := List.map_eq_cons_iff.mp hrest
  cases hentry'
  exact ⟨before, after, first, last, rfl, hentries, hfirst.symm, hlast.symm⟩

theorem exists_slot (h : cache.Represents map unused used) (hentry : entry ∈ map.entries) :
    ∃ index, (cache.slot index).entry = some entry := by
  have hmem : some entry ∈ used.map (fun index => (cache.slot index).entry) := by
    rw [h.used]
    exact List.mem_map_of_mem hentry
  obtain ⟨index, -, hindex⟩ := List.mem_map.mp hmem
  exact ⟨index, hindex⟩

theorem find?_eq_none (h : cache.Represents map unused used) {key : CacheKey}
    (hkey : ∀ index, cache.holds key index = false) : map.find? key = none := by
  apply List.find?_eq_none.mpr
  intro entry hentry
  obtain ⟨index, hindex⟩ := h.exists_slot hentry
  intro hsame
  have hheld := holds_iff.mpr ⟨entry, hindex, by simpa using hsame⟩
  rw [hkey index] at hheld
  cases hheld

theorem with_stats (h : cache.Represents map unused used) (stats : CacheStats) :
    ({ cache with stats := stats } : ScriptCache).Represents { map with stats := stats }
      unused used where
  ordered := h.ordered.of_sameOrder (sameOrder_stats cache stats)
  chained := h.chained.of_sameTable (sameTable_stats cache stats)
  unused := h.unused
  used := h.used
  keys := h.keys
  capacity := h.capacity
  generation := h.generation
  stats := rfl

/-- Touching the slot of an entry makes the entry the most recently used. -/
theorem touch (h : cache.Represents map unused (before ++ index :: after))
    (hentries : map.entries = first ++ entry :: last)
    (hentry : (cache.slot index).entry = some entry)
    (hbefore : before.map (fun index => (cache.slot index).entry) = first.map some)
    (hafter : after.map (fun index => (cache.slot index).entry) = last.map some) :
    (cache.touch index).Represents { map with entries := first ++ last ++ [entry] } unused
      (before ++ after ++ [index]) := by
  have hsame := touch_sameContents cache index
  have hperm : List.Perm (first ++ last ++ [entry]) map.entries := by
    rw [hentries, List.append_assoc]
    exact List.Perm.append_left first (List.perm_append_singleton entry last)
  have hordered := h.ordered
  rw [← List.append_assoc] at hordered
  refine ⟨?_, h.chained.of_sameTable hsame.toSameTable, ?_, ?_, ?_, ?_, ?_, ?_⟩
  · rw [← List.append_assoc, ← List.append_assoc]
    exact hordered.touch
  · intro other hother
    rw [hsame.entry]
    exact h.unused other hother
  · simp only [hsame.entry, List.map_append, hbefore, hafter, List.map_cons, List.map_nil, hentry]
  · exact (hperm.map _).nodup_iff.mpr h.keys
  · rw [hsame.size]
    exact h.capacity
  · rw [hsame.generation]
    exact h.generation
  · rw [hsame.stats]
    exact h.stats

/-! ## The operations -/

theorem lookup_of_found {key : CacheKey} {hint : Option Nat}
    (h : (hint.filter (cache.holds key)).or (cache.find? key) = some index)
    (hentry : (cache.slot index).entry = some entry) :
    cache.lookup key hint =
      (some (index, entry),
        ({ cache with stats := { cache.stats with hits := cache.stats.hits + 1 } } :
          ScriptCache).touch index) := by
  unfold ScriptCache.lookup
  rw [h]
  dsimp only
  rw [(touch_sameContents _ index).entry, (sameTable_stats _ _).entry, hentry]
  rfl

theorem lookup_of_missing {key : CacheKey} {hint : Option Nat}
    (h : (hint.filter (cache.holds key)).or (cache.find? key) = none) :
    cache.lookup key hint =
      (none, { cache with stats := { cache.stats with misses := cache.stats.misses + 1 } }) := by
  unfold ScriptCache.lookup
  rw [h]

/-- Whatever the hint, a lookup selects a slot that holds the key, if there is
one. -/
theorem selected_spec (h : cache.Chained) (key : CacheKey) (hint : Option Nat) :
    match (hint.filter (cache.holds key)).or (cache.find? key) with
    | some index => cache.holds key index = true
    | none => ∀ index, cache.holds key index = false := by
  have hfind := h.find?_spec key
  cases hfilter : hint.filter (cache.holds key) with
  | none => exact hfind
  | some index => exact (Option.filter_eq_some_iff.mp hfilter).2

protected theorem lookup (h : cache.Represents map unused used) (key : CacheKey)
    (hint : Option Nat) :
    (cache.lookup key hint).1.map (·.2) = (map.lookup key).1 ∧
      ∃ used', (cache.lookup key hint).2.Represents (map.lookup key).2 unused used' := by
  have hselected := selected_spec h.chained key hint
  cases hfound : (hint.filter (cache.holds key)).or (cache.find? key) with
  | none =>
      rw [hfound] at hselected
      have hmissing := h.find?_eq_none hselected
      rw [lookup_of_missing hfound]
      simp only [LruMap.lookup, hmissing, h.stats]
      exact ⟨rfl, used, h.with_stats _⟩
  | some index =>
      rw [hfound] at hselected
      obtain ⟨entry, hentry, rfl⟩ := holds_iff.mp hselected
      obtain ⟨before, after, first, last, rfl, hentries, hbefore, hafter⟩ := h.split hentry
      rw [lookup_of_found hfound hentry]
      simp only [LruMap.lookup, LruMap.find?_eq_some hentries h.keys,
        LruMap.without_eq hentries h.keys, h.stats]
      refine ⟨rfl, before ++ after ++ [index], ?_⟩
      exact (h.with_stats _).touch hentries hentry hbefore hafter

theorem map_entry_congr {cache after : ScriptCache} {list : List Nat} {index : Nat}
    {entry : CacheEntry} {entries : List (Option CacheEntry)}
    (h : list.map (fun index => (cache.slot index).entry) = entries)
    (hentry : ∀ other, (after.slot other).entry =
      if other = index then some entry else (cache.slot other).entry)
    (hindex : index ∉ list) :
    list.map (fun index => (after.slot index).entry) = entries := by
  rw [← h]
  apply List.map_congr_left
  intro other hother
  rw [hentry, if_neg (ne_of_mem_of_not_mem hother hindex)]

/-- An entry takes the place of one with the same key. -/
theorem replace (h : cache.Represents map unused (before ++ index :: after))
    {old : CacheEntry} (hkey : entry.key = old.key)
    (hentries : map.entries = first ++ old :: last)
    (hold : (cache.slot index).entry = some old)
    (hbefore : before.map (fun index => (cache.slot index).entry) = first.map some)
    (hafter : after.map (fun index => (cache.slot index).entry) = last.map some) :
    ((cache.replaced index entry).touch index).Represents
      { map with entries := first ++ last ++ [entry] } unused (before ++ after ++ [index]) := by
  have hentry := entry_replaced (lt_size_of_entry hold) entry
  have hsame := replaced_sameOrder cache index entry
  have hnodup := h.ordered.nodup
  rw [← List.append_assoc, List.nodup_middle, List.append_assoc] at hnodup
  have hnew := (List.nodup_cons.mp hnodup).1
  simp only [List.mem_append, not_or] at hnew
  obtain ⟨hunused, hnotBefore, hnotAfter⟩ := hnew
  have hindex : ((cache.replaced index entry).slot index).entry = some entry := by
    rw [hentry, if_pos rfl]
  have hbefore' := map_entry_congr hbefore hentry hnotBefore
  have hafter' := map_entry_congr hafter hentry hnotAfter
  have hreplaced : (cache.replaced index entry).Represents
      { map with entries := first ++ entry :: last } unused (before ++ index :: after) := by
    refine ⟨h.ordered.of_sameOrder hsame, replaced_chained h.chained hold hkey, ?_, ?_, ?_,
      h.capacity.trans hsame.size.symm, h.generation, h.stats⟩
    · intro other hother
      rw [hentry, if_neg (ne_of_mem_of_not_mem hother hunused)]
      exact h.unused other hother
    · rw [List.map_append, List.map_cons, hbefore', hafter', hindex, List.map_append,
        List.map_cons]
    · have hkeys := h.keys
      rw [hentries] at hkeys
      simpa [hkey] using hkeys
  exact hreplaced.touch rfl hindex hbefore' hafter'

/-- The cache with an entry in a recycled slot, which is now the most recently
used. -/
def recycled (cache : ScriptCache) (index : Nat) (entry : CacheEntry) : ScriptCache :=
  ((cache.evict index).occupy index entry).touch index

theorem entry_recycled (hindex : index < cache.slots.size) (entry : CacheEntry) (other : Nat) :
    ((recycled cache index entry).slot other).entry =
      if other = index then some entry else (cache.slot other).entry := by
  unfold recycled
  rw [← (evict_sameOrder cache index).size] at hindex
  rw [(touch_sameContents _ index).entry, entry_occupy hindex, entry_evict]
  split <;> rfl

theorem recycled_ordered {others : List Nat} (h : cache.Ordered (index :: others))
    (entry : CacheEntry) : (recycled cache index entry).Ordered (others ++ [index]) := by
  have hoccupied := (evict_sameOrder cache index).trans
    (occupy_sameOrder (cache.evict index) index entry)
  have horder : ((cache.evict index).occupy index entry).Ordered ([] ++ index :: others) :=
    h.of_sameOrder hoccupied
  exact horder.touch

theorem recycled_chained (h : cache.Chained) (hindex : index < cache.slots.size)
    (entry : CacheEntry) : (recycled cache index entry).Chained := by
  rw [← (evict_sameOrder cache index).size] at hindex
  have hempty : ((cache.evict index).slot index).entry = none := by
    rw [entry_evict, if_pos rfl]
  exact (occupy_chained (evict_chained h index) hindex hempty entry).of_sameTable
    (touch_sameContents _ index).toSameTable

theorem recycled_counts (cache : ScriptCache) (index : Nat) (entry : CacheEntry) :
    (recycled cache index entry).slots.size = cache.slots.size ∧
      (recycled cache index entry).generation = cache.generation ∧
      (recycled cache index entry).stats = (cache.evict index).stats := by
  have htouched := touch_sameContents ((cache.evict index).occupy index entry) index
  refine ⟨?_, ?_, htouched.stats⟩
  · exact htouched.size.trans
      ((occupy_sameOrder _ index entry).size.trans (evict_sameOrder cache index).size)
  · exact htouched.generation.trans (evict_counts cache index).1

theorem length_eq (h : cache.Represents map unused used) :
    unused.length + map.entries.length = map.capacity := by
  have hperm : List.Perm (unused ++ used) (List.range cache.slots.size) := by
    apply (List.perm_ext_iff_of_nodup h.ordered.nodup List.nodup_range).mpr
    intro index
    rw [h.ordered.mem_iff, List.mem_range]
  have hlength := hperm.length_eq
  have hused := congrArg List.length h.used
  simp only [List.length_append, List.length_range, List.length_map] at hlength hused
  rw [h.capacity, ← hlength, hused]

theorem keys_concat {entries : List CacheEntry} (hkeys : (entries.map (·.key)).Nodup)
    (hnew : ∀ other ∈ entries, other.key ≠ entry.key) :
    ((entries ++ [entry]).map (·.key)).Nodup := by
  rw [List.map_append, List.nodup_append]
  refine ⟨hkeys, by simp, ?_⟩
  intro key hkey other hother
  obtain ⟨held, hheld, rfl⟩ := List.mem_map.mp hkey
  obtain rfl : other = entry.key := by simpa using hother
  exact hnew held hheld

theorem keys_ne_of_missing (hnew : map.find? entry.key = none) :
    ∀ other ∈ map.entries, other.key ≠ entry.key := by
  intro other hother
  simpa using List.find?_eq_none.mp hnew other hother

/-- A new entry goes to an unused slot while there is one. -/
theorem insert_unused {rest : List Nat} (h : cache.Represents map (index :: rest) used)
    (hnew : map.find? entry.key = none) :
    (recycled cache index entry).Represents (map.insert entry) rest (used ++ [index]) := by
  have hlength := h.length_eq
  have hroom : map.entries.length < map.capacity := by
    simp only [List.length_cons] at hlength
    omega
  have hinsert : map.insert entry = { map with entries := map.entries ++ [entry] } := by
    simp only [LruMap.insert, hnew, if_pos hroom]
  have hordered := h.ordered
  rw [List.cons_append] at hordered
  have hindex := hordered.lt_size (List.mem_cons_self ..)
  have hentry := entry_recycled hindex entry
  obtain ⟨hsize, hgeneration, hstats⟩ := recycled_counts cache index entry
  rw [(evict_counts cache index).2, h.unused index (by simp)] at hstats
  have hnodup := (List.nodup_cons.mp hordered.nodup).1
  rw [List.mem_append, not_or] at hnodup
  rw [hinsert]
  refine ⟨?_, recycled_chained h.chained hindex entry, ?_, ?_,
    keys_concat h.keys (keys_ne_of_missing hnew), h.capacity.trans hsize.symm,
    h.generation.trans hgeneration.symm, h.stats.trans hstats.symm⟩
  · rw [← List.append_assoc]
    exact recycled_ordered hordered entry
  · intro other hother
    rw [hentry, if_neg (ne_of_mem_of_not_mem hother hnodup.1)]
    exact h.unused other (List.mem_cons_of_mem _ hother)
  · rw [List.map_append, map_entry_congr h.used hentry hnodup.2]
    simp [hentry]

/-- A new entry takes the place of the one used least recently when every slot
is in use. -/
theorem insert_full {rest : List Nat} (h : cache.Represents map [] (index :: rest))
    (hnew : map.find? entry.key = none) :
    (recycled cache index entry).Represents (map.insert entry) [] (rest ++ [index]) := by
  have hlength := h.length_eq
  have hfull : ¬map.entries.length < map.capacity := by
    simp only [List.length_nil] at hlength
    omega
  have hinsert : map.insert entry =
      { map with
        entries := map.entries.tail ++ [entry]
        stats := { map.stats with evictions := map.stats.evictions + 1 } } := by
    simp only [LruMap.insert, hnew, if_neg hfull]
  have hordered := h.ordered
  rw [List.nil_append] at hordered
  have hindex := hordered.lt_size (List.mem_cons_self ..)
  have hentry := entry_recycled hindex entry
  obtain ⟨old, entries, hentries, hold, hrest⟩ := List.map_eq_cons_iff.mp h.used.symm
  obtain ⟨hsize, hgeneration, hstats⟩ := recycled_counts cache index entry
  rw [(evict_counts cache index).2, ← show some old = (cache.slot index).entry from hold] at hstats
  have hkeys := h.keys
  have hne := keys_ne_of_missing hnew
  rw [hentries] at hkeys hne
  rw [hinsert]
  refine ⟨recycled_ordered hordered entry, recycled_chained h.chained hindex entry, by simp, ?_,
    ?_, h.capacity.trans hsize.symm, h.generation.trans hgeneration.symm, ?_⟩
  · rw [List.map_append, map_entry_congr hrest.symm hentry (List.nodup_cons.mp hordered.nodup).1,
      hentries]
    simp [hentry]
  · rw [hentries]
    apply keys_concat (List.nodup_cons.mp hkeys).2
    intro other hother
    exact hne other (List.mem_cons_of_mem _ hother)
  · rw [hstats, h.stats]

/-- The first slot in the order of use is the one to be recycled. -/
theorem insert_new (h : cache.Represents map unused used)
    (hnew : map.find? entry.key = none) :
    ∃ unused' used',
      (recycled cache cache.oldest entry).Represents (map.insert entry) unused' used' := by
  have holdest := h.ordered.oldest
  cases unused with
  | cons index rest =>
      obtain rfl : index = cache.oldest := by simpa using holdest
      exact ⟨rest, used ++ [cache.oldest], h.insert_unused hnew⟩
  | nil =>
      cases used with
      | nil => simp at holdest
      | cons index rest =>
          obtain rfl : index = cache.oldest := by simpa using holdest
          exact ⟨[], rest ++ [cache.oldest], h.insert_full hnew⟩

theorem insert_of_found {key : CacheKey} (h : cache.find? key = some index) (script : Script)
    (info : ProcInfo) :
    (cache.insert key script info).2 = (cache.replaced index ⟨key, script, info⟩).touch index := by
  unfold ScriptCache.insert
  rw [h]
  rfl

theorem insert_of_missing {key : CacheKey} (h : cache.find? key = none) (script : Script)
    (info : ProcInfo) :
    (cache.insert key script info).2 = recycled cache cache.oldest ⟨key, script, info⟩ := by
  unfold ScriptCache.insert
  rw [h]
  rfl

protected theorem insert (h : cache.Represents map unused used) (key : CacheKey)
    (script : Script) (info : ProcInfo) :
    ∃ unused' used', (cache.insert key script info).2.Represents
      (map.insert ⟨key, script, info⟩) unused' used' := by
  have hfind := h.chained.find?_spec key
  cases hfound : cache.find? key with
  | none =>
      rw [hfound] at hfind
      rw [insert_of_missing hfound]
      exact h.insert_new (h.find?_eq_none hfind)
  | some index =>
      rw [hfound] at hfind
      obtain ⟨old, hold, rfl⟩ := holds_iff.mp hfind
      obtain ⟨before, after, first, last, rfl, hentries, hbefore, hafter⟩ := h.split hold
      have hkey : (⟨old.key, script, info⟩ : CacheEntry).key = old.key := rfl
      have hinsert : map.insert ⟨old.key, script, info⟩ =
          { map with entries := first ++ last ++ [⟨old.key, script, info⟩] } := by
        simp only [LruMap.insert, LruMap.find?_eq_some hentries h.keys,
          LruMap.without_eq hentries h.keys]
      rw [insert_of_found hfound, hinsert]
      exact ⟨unused, before ++ after ++ [index], h.replace hkey hentries hold hbefore hafter⟩

/-! ## Empty caches -/

theorem flush (h : cache.Represents map unused used) :
    cache.flush.Represents map.flush (List.range cache.slots.size) [] := by
  have hslots : cache.flush.slots = freshSlots cache.slots.size := rfl
  have hsize : cache.flush.slots.size = cache.slots.size := by simp [hslots, freshSlots]
  have hcount : 0 < cache.slots.size := by
    have hnewest := List.mem_of_mem_getLast? h.ordered.newest
    have hlt := h.ordered.lt_size hnewest
    omega
  have hbuckets : cache.flush.buckets = Array.replicate (2 ^ cache.flush.logBuckets) none := by
    change Array.replicate cache.buckets.size none = _
    rw [h.chained.buckets]
    rfl
  refine ⟨?_, chained_fresh hslots hbuckets h.chained.logBuckets, ?_, rfl, List.nodup_nil,
    h.capacity.trans hsize.symm, h.generation, ?_⟩
  · rw [List.append_nil]
    exact ordered_fresh hslots hcount rfl rfl
  · intro index _
    exact entry_fresh hslots index
  · change { map.stats with flushes := map.stats.flushes + 1 } = _
    rw [h.stats]
    rfl

theorem sync (h : cache.Represents map unused used) (generation : UInt64) :
    ∃ unused' used', (cache.sync generation).Represents (map.sync generation) unused' used' := by
  unfold ScriptCache.sync LruMap.sync
  rw [h.generation]
  by_cases hgeneration : cache.generation = generation
  · rw [if_pos hgeneration, if_pos hgeneration]
    exact ⟨unused, used, h⟩
  · rw [if_neg hgeneration, if_neg hgeneration]
    have hflush := h.flush
    exact ⟨_, _, ⟨hflush.ordered.of_sameOrder ⟨rfl, fun _ => rfl, fun _ => rfl, rfl, rfl⟩,
      hflush.chained.of_sameTable ⟨fun _ => rfl, fun _ => rfl, rfl, rfl⟩, hflush.unused,
      hflush.used, hflush.keys, hflush.capacity, rfl, hflush.stats⟩⟩

theorem ceilLog2_le {n log : Nat} (h : n ≤ 2 ^ log) : ceilLog2 n ≤ log := by
  unfold ceilLog2
  split
  · omega
  · have hlt : (n - 1).log2 < log := (Nat.log2_lt (by omega)).mpr (by omega)
    omega

theorem make (capacity : Nat) :
    (ScriptCache.make capacity).Represents (LruMap.make (clampCapacity capacity))
      (List.range (clampCapacity capacity)) [] := by
  have hslots : (ScriptCache.make capacity).slots = freshSlots (clampCapacity capacity) := rfl
  have hcount : 0 < clampCapacity capacity := by
    unfold clampCapacity maxCapacity
    omega
  have hlog : ceilLog2 (2 * clampCapacity capacity) ≤ 64 := by
    apply ceilLog2_le
    unfold clampCapacity maxCapacity
    omega
  have hbuckets : (ScriptCache.make capacity).buckets =
      Array.replicate (2 ^ (ScriptCache.make capacity).logBuckets) none := by
    rw [← Nat.one_shiftLeft]
    rfl
  refine ⟨?_, chained_fresh hslots hbuckets hlog, ?_, rfl, List.nodup_nil, ?_, rfl, rfl⟩
  · rw [List.append_nil]
    exact ordered_fresh hslots hcount rfl rfl
  · intro index _
    exact entry_fresh hslots index
  · simp [hslots, freshSlots, LruMap.make]

end Represents

end ScriptCache
end StackWalk
