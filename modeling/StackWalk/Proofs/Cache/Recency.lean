import Mathlib.Data.List.Nodup
import Mathlib.Tactic
import StackWalk.ScriptCache

/-!
# The order of use

The slots form one doubly linked list from the least to the most recently
used.  A segment is a part of it, with what its two ends are linked to.  Taking
a slot out relinks the end of the segment before it and the beginning of the
one after it; every other slot keeps its links, so a segment is carried over
by a comparison of links alone.
-/

namespace StackWalk.ScriptCache

/-! ## Slots after a change -/

theorem slot_modifySlot (cache : ScriptCache) (index other : Nat)
    (change : CacheSlot → CacheSlot) :
    (cache.modifySlot index change).slot other =
      if index = other ∧ other < cache.slots.size then
        change (cache.slot other)
      else
        cache.slot other := by
  unfold slot modifySlot
  by_cases hother : other < cache.slots.size
  · by_cases hindex : index = other
    · simp [hindex, hother, Array.getElem_modify]
    · simp [hindex, hother, Array.getElem_modify]
  · simp [hother]

/-- The two caches have the same entries in the same chains. -/
structure SameTable (first second : ScriptCache) : Prop where
  entry : ∀ index, (second.slot index).entry = (first.slot index).entry
  chain : ∀ index, (second.slot index).chain = (first.slot index).chain
  buckets : second.buckets = first.buckets
  logBuckets : second.logBuckets = first.logBuckets

/-- The two caches differ in the order of use alone. -/
structure SameContents (first second : ScriptCache) : Prop extends SameTable first second where
  size : second.slots.size = first.slots.size
  generation : second.generation = first.generation
  stats : second.stats = first.stats

theorem SameContents.refl (cache : ScriptCache) : SameContents cache cache :=
  ⟨⟨fun _ => rfl, fun _ => rfl, rfl, rfl⟩, rfl, rfl, rfl⟩

theorem SameContents.trans {first second third : ScriptCache}
    (h₁ : SameContents first second) (h₂ : SameContents second third) :
    SameContents first third where
  entry index := (h₂.entry index).trans (h₁.entry index)
  chain index := (h₂.chain index).trans (h₁.chain index)
  buckets := h₂.buckets.trans h₁.buckets
  logBuckets := h₂.logBuckets.trans h₁.logBuckets
  size := h₂.size.trans h₁.size
  generation := h₂.generation.trans h₁.generation
  stats := h₂.stats.trans h₁.stats

theorem sameContents_modifySlot (cache : ScriptCache) (index : Nat)
    (change : CacheSlot → CacheSlot) (hentry : ∀ slot, (change slot).entry = slot.entry)
    (hchain : ∀ slot, (change slot).chain = slot.chain) :
    SameContents cache (cache.modifySlot index change) where
  size := by simp [modifySlot]
  entry other := by
    rw [slot_modifySlot]
    split
    · exact hentry _
    · rfl
  chain other := by
    rw [slot_modifySlot]
    split
    · exact hchain _
    · rfl
  buckets := rfl
  logBuckets := rfl
  generation := rfl
  stats := rfl

/-! ## Segments -/

/-- Slots that follow one another, between a slot used before them and one
used after. -/
def Segment (cache : ScriptCache) : Option Nat → List Nat → Option Nat → Prop
  | _, [], _ => True
  | older, index :: rest, newer =>
      (cache.slot index).older = older ∧
      (cache.slot index).newer = rest.head?.or newer ∧
      cache.Segment (some index) rest newer

theorem segment_append {cache : ScriptCache} {older newer : Option Nat} {first second : List Nat} :
    cache.Segment older (first ++ second) newer ↔
      cache.Segment older first (second.head?.or newer) ∧
      cache.Segment (first.getLast?.or older) second newer := by
  induction first generalizing older with
  | nil => simp [Segment]
  | cons index rest ih =>
      simp only [List.cons_append, Segment, List.head?_append, Option.or_assoc]
      rw [ih, List.getLast?_cons]
      cases rest.getLast? <;> simp [and_assoc]

/-- A segment is still one where no link of its slots has changed. -/
theorem Segment.of_same_links {first second : ScriptCache} {older newer : Option Nat}
    {list : List Nat} (h : first.Segment older list newer)
    (holder : ∀ index ∈ list, (second.slot index).older = (first.slot index).older)
    (hnewer : ∀ index ∈ list, (second.slot index).newer = (first.slot index).newer) :
    second.Segment older list newer := by
  induction list generalizing older with
  | nil => trivial
  | cons index rest ih =>
      obtain ⟨hfirst, hsecond, hrest⟩ := h
      refine ⟨?_, ?_, ?_⟩
      · rw [holder index (by simp), hfirst]
      · rw [hnewer index (by simp), hsecond]
      · apply ih hrest
        · intro other hother
          exact holder other (by simp [hother])
        · intro other hother
          exact hnewer other (by simp [hother])

/-- The same slots after another one. -/
theorem Segment.relink_older {first second : ScriptCache} {older older' newer : Option Nat}
    {list : List Nat} (h : first.Segment older list newer)
    (hhead : ∀ index ∈ list.head?, (second.slot index).older = older')
    (holder : ∀ index ∈ list.tail, (second.slot index).older = (first.slot index).older)
    (hnewer : ∀ index ∈ list, (second.slot index).newer = (first.slot index).newer) :
    second.Segment older' list newer := by
  cases list with
  | nil => trivial
  | cons index rest =>
      obtain ⟨-, hlink, hrest⟩ := h
      refine ⟨hhead index (by simp), ?_, ?_⟩
      · rw [hnewer index (by simp), hlink]
      · apply hrest.of_same_links holder
        intro other hother
        exact hnewer other (by simp [hother])

/-- The same slots before another one. -/
theorem Segment.relink_newer {first second : ScriptCache} {older newer newer' : Option Nat}
    {list : List Nat} (h : first.Segment older list newer)
    (hlast : ∀ index ∈ list.getLast?, (second.slot index).newer = newer')
    (hnewer : ∀ index ∈ list.dropLast, (second.slot index).newer = (first.slot index).newer)
    (holder : ∀ index ∈ list, (second.slot index).older = (first.slot index).older) :
    second.Segment older list newer' := by
  rcases List.eq_nil_or_concat' list with rfl | ⟨init, last, rfl⟩
  · trivial
  · rw [segment_append] at h ⊢
    obtain ⟨hinit, hend, -, -⟩ := h
    refine ⟨?_, ?_, ?_, trivial⟩
    · refine Segment.of_same_links hinit ?_ ?_
      · intro index hindex
        exact holder index (by simp [hindex])
      · intro index hindex
        exact hnewer index (by simpa using hindex)
    · rw [holder last (by simp), hend]
    · simpa using hlast last (by simp)

theorem getLast?_ne_of_mem_dropLast {list : List Nat} {index : Nat} (hnodup : list.Nodup)
    (hindex : index ∈ list.dropLast) : list.getLast? ≠ some index := by
  rcases List.eq_nil_or_concat' list with rfl | ⟨init, last, rfl⟩
  · simp
  · rw [List.dropLast_concat] at hindex
    rw [List.nodup_append] at hnodup
    have hne := hnodup.2.2 index hindex last (by simp)
    simpa using hne.symm

/-! ## The whole list -/

/-- The slots of the cache from the least to the most recently used. -/
structure Ordered (cache : ScriptCache) (order : List Nat) : Prop where
  nodup : order.Nodup
  mem_iff : ∀ index, index ∈ order ↔ index < cache.slots.size
  oldest : order.head? = some cache.oldest
  newest : order.getLast? = some cache.newest
  links : cache.Segment none order none

/-- The two caches have the same order of use. -/
structure SameOrder (first second : ScriptCache) : Prop where
  size : second.slots.size = first.slots.size
  older : ∀ index, (second.slot index).older = (first.slot index).older
  newer : ∀ index, (second.slot index).newer = (first.slot index).newer
  oldest : second.oldest = first.oldest
  newest : second.newest = first.newest

theorem SameOrder.trans {first second third : ScriptCache}
    (h₁ : SameOrder first second) (h₂ : SameOrder second third) : SameOrder first third where
  size := h₂.size.trans h₁.size
  older index := (h₂.older index).trans (h₁.older index)
  newer index := (h₂.newer index).trans (h₁.newer index)
  oldest := h₂.oldest.trans h₁.oldest
  newest := h₂.newest.trans h₁.newest

theorem sameOrder_modifySlot (cache : ScriptCache) (index : Nat)
    (change : CacheSlot → CacheSlot) (holder : ∀ slot, (change slot).older = slot.older)
    (hnewer : ∀ slot, (change slot).newer = slot.newer) :
    SameOrder cache (cache.modifySlot index change) where
  size := by simp [modifySlot]
  older other := by
    rw [slot_modifySlot]
    split
    · exact holder _
    · rfl
  newer other := by
    rw [slot_modifySlot]
    split
    · exact hnewer _
    · rfl
  oldest := rfl
  newest := rfl

theorem Ordered.of_sameOrder {first second : ScriptCache} {order : List Nat}
    (h : first.Ordered order) (hsame : SameOrder first second) : second.Ordered order where
  nodup := h.nodup
  mem_iff index := by rw [h.mem_iff, hsame.size]
  oldest := by rw [h.oldest, hsame.oldest]
  newest := by rw [h.newest, hsame.newest]
  links := h.links.of_same_links (fun index _ => hsame.older index) fun index _ =>
    hsame.newer index

namespace Ordered

variable {cache : ScriptCache} {order before after : List Nat} {index next : Nat}

theorem lt_size (h : cache.Ordered order) (hindex : index ∈ order) :
    index < cache.slots.size :=
  (h.mem_iff index).mp hindex

/-- What a slot in the middle is linked to. -/
theorem links_at (h : cache.Ordered (before ++ index :: after)) :
    (cache.slot index).older = before.getLast? ∧ (cache.slot index).newer = after.head? := by
  have hlinks := (segment_append.mp h.links).2
  simp only [Segment, Option.or_none] at hlinks
  exact ⟨hlinks.1, hlinks.2.1⟩

end Ordered

/-! ## Unused slots -/

theorem slot_fresh {cache : ScriptCache} {count : Nat} (h : cache.slots = freshSlots count)
    {index : Nat} (hindex : index < count) :
    cache.slot index =
      { entry := none
        older := if index = 0 then none else some (index - 1)
        newer := if index + 1 = count then none else some (index + 1)
        chain := none } := by
  simp [slot, h, freshSlots, hindex]

theorem entry_fresh {cache : ScriptCache} {count : Nat} (h : cache.slots = freshSlots count)
    (index : Nat) : (cache.slot index).entry = none := by
  by_cases hindex : index < count
  · rw [slot_fresh h hindex]
  · simp [slot, h, freshSlots, hindex]
    rfl

theorem segment_fresh {cache : ScriptCache} {count : Nat} (h : cache.slots = freshSlots count)
    (start length : Nat) (hcount : start + length = count) :
    cache.Segment (if start = 0 then none else some (start - 1)) (List.range' start length)
      none := by
  induction length generalizing start with
  | zero => trivial
  | succ length ih =>
      have hslot := slot_fresh h (show start < count by omega)
      rw [List.range'_succ]
      refine ⟨by rw [hslot], ?_, ?_⟩
      · rw [hslot]
        cases length with
        | zero => simp [hcount]
        | succ length => simp [List.range'_succ]; omega
      · simpa using ih (start + 1) (by omega)

theorem ordered_fresh {cache : ScriptCache} {count : Nat} (h : cache.slots = freshSlots count)
    (hcount : 0 < count) (holdest : cache.oldest = 0) (hnewest : cache.newest = count - 1) :
    cache.Ordered (List.range count) where
  nodup := List.nodup_range
  mem_iff index := by simp [h, freshSlots]
  oldest := by
    rw [holdest, List.head?_range, if_neg (by omega)]
  newest := by
    rw [hnewest, List.getLast?_range, if_neg (by omega)]
  links := by
    have hlinks := segment_fresh h 0 count (by omega)
    rwa [if_pos rfl, ← List.range_eq_range'] at hlinks

/-! ## Taking a slot out -/

theorem unlink_sameContents (cache : ScriptCache) (index : Nat) :
    SameContents cache (cache.unlink index) := by
  have hnewer (cache : ScriptCache) (index : Nat) (newer : Option Nat) :
      SameContents cache (cache.modifySlot index fun slot => { slot with newer := newer }) :=
    sameContents_modifySlot _ _ _ (fun _ => rfl) (fun _ => rfl)
  have holder (cache : ScriptCache) (index : Nat) (older : Option Nat) :
      SameContents cache (cache.modifySlot index fun slot => { slot with older := older }) :=
    sameContents_modifySlot _ _ _ (fun _ => rfl) (fun _ => rfl)
  unfold unlink
  rcases cache.slot index with ⟨entry, older, newer, chain⟩
  cases older with
  | none =>
      cases newer with
      | none => exact .refl cache
      | some next =>
          have hmoved : SameContents cache { cache with oldest := next } :=
            ⟨⟨fun _ => rfl, fun _ => rfl, rfl, rfl⟩, rfl, rfl, rfl⟩
          exact hmoved.trans (holder ..)
  | some previous =>
      cases newer with
      | none => exact hnewer ..
      | some next => exact (hnewer ..).trans (holder ..)

theorem links_unlink {cache : ScriptCache} {index next : Nat} {older : Option Nat}
    (holder : (cache.slot index).older = older) (hnewer : (cache.slot index).newer = some next)
    (hnext : next < cache.slots.size) (hprevious : ∀ previous ∈ older, previous < cache.slots.size)
    (other : Nat) :
    ((cache.unlink index).slot other).older =
        (if other = next then older else (cache.slot other).older) ∧
      ((cache.unlink index).slot other).newer =
        if older = some other then some next else (cache.slot other).newer := by
  have hsize (cache : ScriptCache) (index : Nat) (change : CacheSlot → CacheSlot) :
      (cache.modifySlot index change).slots.size = cache.slots.size := by
    simp [modifySlot]
  have hmoved (oldest other : Nat) :
      ({ cache with oldest := oldest } : ScriptCache).slot other = cache.slot other := rfl
  unfold unlink
  rcases hslot : cache.slot index with ⟨entry, older', newer', chain⟩
  rw [hslot] at holder hnewer
  dsimp only at holder hnewer
  subst holder hnewer
  cases older' with
  | none =>
      simp only [slot_modifySlot, hmoved]
      by_cases hother : other = next
      · subst hother
        simp [hnext]
      · simp [hother, Ne.symm hother]
  | some previous =>
      have hprevious := hprevious previous rfl
      simp only [slot_modifySlot, hsize]
      by_cases hother : other = next
      · subst hother
        by_cases hsame : previous = other
        · simp [hsame, hnext]
        · simp [hsame, hnext]
      · by_cases hsame : previous = other
        · subst hsame
          simp [hother, Ne.symm hother, hprevious]
        · simp [hother, Ne.symm hother, hsame]

theorem segment_unlink {cache : ScriptCache} {before rest : List Nat} {index next : Nat}
    (h : cache.Ordered (before ++ index :: next :: rest)) :
    (cache.unlink index).Segment none (before ++ next :: rest) none := by
  have hbound : ∀ other ∈ before ++ index :: next :: rest, other < cache.slots.size :=
    fun other => h.lt_size
  obtain ⟨holder, hnewer⟩ := h.links_at
  have hunlinked := links_unlink holder hnewer (hbound next (by simp))
    (fun previous hprevious => hbound previous
      (List.mem_append_left _ (List.mem_of_mem_getLast? hprevious)))
  obtain ⟨hbefore, -, -, hafter⟩ := segment_append.mp h.links
  have hnodup := h.nodup
  rw [List.nodup_append] at hnodup
  obtain ⟨hnodupBefore, hnodupAfter, hdisjoint⟩ := hnodup
  simp only [List.nodup_cons, List.mem_cons, not_or] at hnodupAfter
  rw [segment_append]
  constructor
  · apply hbefore.relink_newer
    · intro previous hprevious
      rw [(hunlinked previous).2, if_pos (Option.mem_def.mp hprevious)]
      rfl
    · intro other hother
      rw [(hunlinked other).2, if_neg (getLast?_ne_of_mem_dropLast hnodupBefore hother)]
    · intro other hother
      have hne : other ≠ next := hdisjoint other hother next (by simp)
      rw [(hunlinked other).1, if_neg hne]
  · refine Segment.relink_older hafter ?_ ?_ ?_
    · intro other hother
      obtain rfl : next = other := by simpa using hother
      rw [(hunlinked next).1, if_pos rfl, Option.or_none]
    · intro other hother
      have hne : other ≠ next := by
        rintro rfl
        exact hnodupAfter.2.1 hother
      rw [(hunlinked other).1, if_neg hne]
    · intro other hother
      have hlast : before.getLast? ≠ some other := by
        intro hlast
        exact hdisjoint other (List.mem_of_mem_getLast? hlast) other
          (List.mem_cons_of_mem _ hother) rfl
      rw [(hunlinked other).2, if_neg hlast]

/-! ## Putting a slot last -/

/-- Links a slot that is not in the list behind the last one. -/
def linkLast (cache : ScriptCache) (index : Nat) : ScriptCache :=
  let last := cache.newest
  let cache := cache.modifySlot last fun slot => { slot with newer := some index }
  let cache := cache.modifySlot index fun slot => { slot with older := some last, newer := none }
  { cache with newest := index }

theorem touch_of_newest {cache : ScriptCache} {index : Nat} (h : cache.newest = index) :
    cache.touch index = cache :=
  if_pos h

theorem touch_of_ne_newest {cache : ScriptCache} {index : Nat} (h : cache.newest ≠ index) :
    cache.touch index = (cache.unlink index).linkLast index :=
  if_neg h

theorem linkLast_sameContents (cache : ScriptCache) (index : Nat) :
    SameContents cache (cache.linkLast index) := by
  have hlast := sameContents_modifySlot cache cache.newest
    (fun slot => { slot with newer := some index }) (fun _ => rfl) (fun _ => rfl)
  have hlinked := hlast.trans (sameContents_modifySlot _ index
    (fun slot => { slot with older := some cache.newest, newer := none })
    (fun _ => rfl) (fun _ => rfl))
  exact ⟨⟨hlinked.entry, hlinked.chain, hlinked.buckets, hlinked.logBuckets⟩, hlinked.size,
    hlinked.generation, hlinked.stats⟩

theorem touch_sameContents (cache : ScriptCache) (index : Nat) :
    SameContents cache (cache.touch index) := by
  by_cases h : cache.newest = index
  · rw [touch_of_newest h]
    exact .refl cache
  · rw [touch_of_ne_newest h]
    exact (unlink_sameContents cache index).trans (linkLast_sameContents _ index)

theorem links_linkLast {cache : ScriptCache} {index : Nat} (hindex : index < cache.slots.size)
    (hnewest : cache.newest < cache.slots.size) (hne : cache.newest ≠ index) (other : Nat) :
    ((cache.linkLast index).slot other).older =
        (if other = index then some cache.newest else (cache.slot other).older) ∧
      ((cache.linkLast index).slot other).newer =
        if other = index then none
        else if other = cache.newest then some index
        else (cache.slot other).newer := by
  have hsize : ∀ change : CacheSlot → CacheSlot,
      (cache.modifySlot cache.newest change).slots.size = cache.slots.size := by
    simp [modifySlot]
  have hmoved (cache : ScriptCache) :
      ({ cache with newest := index } : ScriptCache).slot other = cache.slot other := rfl
  unfold linkLast
  simp only [hmoved, slot_modifySlot, hsize]
  by_cases hother : other = index
  · subst hother
    simp [hindex]
  · by_cases hlast : other = cache.newest
    · simp [hlast, hnewest, hne, Ne.symm hne]
    · simp [hother, Ne.symm hother, hlast, Ne.symm hlast]

theorem segment_linkLast {cache : ScriptCache} {list : List Nat} {index : Nat}
    (h : cache.Segment none list none) (hlast : list.getLast? = some cache.newest)
    (hnodup : list.Nodup) (hnew : index ∉ list) (hindex : index < cache.slots.size)
    (hnewest : cache.newest < cache.slots.size) :
    (cache.linkLast index).Segment none (list ++ [index]) none := by
  have hmem : cache.newest ∈ list := List.mem_of_mem_getLast? hlast
  have hlinked := links_linkLast hindex hnewest (ne_of_mem_of_not_mem hmem hnew)
  rw [segment_append]
  constructor
  · apply h.relink_newer
    · intro other hother
      obtain rfl : cache.newest = other := by
        rw [hlast] at hother
        exact Option.some.inj hother
      rw [(hlinked _).2, if_neg (ne_of_mem_of_not_mem hmem hnew), if_pos rfl]
      rfl
    · intro other hother
      have hne : other ≠ index :=
        ne_of_mem_of_not_mem (List.mem_of_mem_dropLast hother) hnew
      have hlater : other ≠ cache.newest := by
        rintro rfl
        exact getLast?_ne_of_mem_dropLast hnodup hother hlast
      rw [(hlinked other).2, if_neg hne, if_neg hlater]
    · intro other hother
      rw [(hlinked other).1, if_neg (ne_of_mem_of_not_mem hother hnew)]
  · refine ⟨?_, ?_, trivial⟩
    · rw [(hlinked index).1, if_pos rfl, hlast]
      rfl
    · rw [(hlinked index).2, if_pos rfl]
      rfl

theorem newest_unlink (cache : ScriptCache) (index : Nat) :
    (cache.unlink index).newest = cache.newest := by
  unfold unlink
  rcases cache.slot index with ⟨entry, older, newer, chain⟩
  cases older <;> cases newer <;> rfl

theorem oldest_unlink {cache : ScriptCache} {before rest : List Nat} {index next : Nat}
    (h : cache.Ordered (before ++ index :: next :: rest)) :
    (before ++ next :: rest).head? = some (cache.unlink index).oldest := by
  obtain ⟨holder, hnewer⟩ := h.links_at
  have holdest := h.oldest
  unfold unlink
  rcases hslot : cache.slot index with ⟨entry, older, newer, chain⟩
  rw [hslot] at holder hnewer
  dsimp only at holder hnewer
  subst holder hnewer
  cases before with
  | nil => rfl
  | cons first others =>
      rw [List.getLast?_cons]
      exact holdest

/-- Touching a slot moves it to the end. -/
theorem Ordered.touch {cache : ScriptCache} {before after : List Nat} {index : Nat}
    (h : cache.Ordered (before ++ index :: after)) :
    (cache.touch index).Ordered (before ++ after ++ [index]) := by
  have hsame := touch_sameContents cache index
  cases after with
  | nil =>
      have hnewest : cache.newest = index := by
        simpa using h.newest.symm
      rw [touch_of_newest hnewest, List.append_nil]
      exact h
  | cons next rest =>
      have hperm : List.Perm (before ++ next :: rest ++ [index]) (before ++ index :: next :: rest) := by
        rw [List.append_assoc]
        exact List.Perm.append_left before (List.perm_append_singleton index (next :: rest))
      have hnodup := hperm.nodup_iff.mpr h.nodup
      rw [List.nodup_append] at hnodup
      have hlast : (before ++ next :: rest).getLast? = some cache.newest := by
        simpa [List.getLast?_append] using h.newest
      have hnew : index ∉ before ++ next :: rest := by
        intro hmem
        exact hnodup.2.2 index hmem index (by simp) rfl
      have hnewest : cache.newest ≠ index :=
        ne_of_mem_of_not_mem (List.mem_of_mem_getLast? hlast) hnew
      rw [touch_of_ne_newest hnewest] at hsame ⊢
      refine ⟨hperm.nodup_iff.mpr h.nodup, ?_, ?_, ?_, ?_⟩
      · intro other
        rw [hperm.mem_iff, h.mem_iff, hsame.size]
      · have holdest := oldest_unlink h
        rw [List.head?_append, holdest]
        rfl
      · exact List.getLast?_concat
      · have hsize := (unlink_sameContents cache index).size
        rw [← newest_unlink cache index] at hlast
        refine segment_linkLast (segment_unlink h) hlast hnodup.1 hnew ?_ ?_
        · rw [hsize]
          exact h.lt_size (by simp)
        · rw [hsize]
          exact h.lt_size (hperm.mem_iff.mp
            (List.mem_append_left _ (List.mem_of_mem_getLast? hlast)))

end StackWalk.ScriptCache
