import StackWalk.Proofs.Cache.LruMap

/-!
# Runs of a cache

A cache that is asked, filled and emptied in any order answers as the map does
that forgets what was used least recently.  What the map still has of a key is
told by its history: the entry stored last, unless it was evicted or everything
was forgotten since.
-/

namespace StackWalk

/-- What can be asked of a cache. -/
inductive CacheRequest where
  | lookup (key : CacheKey) (hint : Option Nat)
  | insert (key : CacheKey) (script : Script) (info : ProcInfo)
  | sync (generation : UInt64)
  | flush

/-- Serves a request.  Only a lookup that hits has an answer. -/
def ScriptCache.serve (cache : ScriptCache) : CacheRequest → Option CacheEntry × ScriptCache
  | .lookup key hint => ((cache.lookup key hint).1.map (·.2), (cache.lookup key hint).2)
  | .insert key script info => (none, (cache.insert key script info).2)
  | .sync generation => (none, cache.sync generation)
  | .flush => (none, cache.flush)

/-- Serves requests one after the other. -/
def ScriptCache.serveAll (cache : ScriptCache) :
    List CacheRequest → List (Option CacheEntry) × ScriptCache
  | [] => ([], cache)
  | request :: rest =>
      let (answer, cache) := cache.serve request
      let (answers, cache) := cache.serveAll rest
      (answer :: answers, cache)

/-- What happens to the entries of a map. -/
inductive CacheEvent where
  | stored (entry : CacheEntry)
  | evicted (key : CacheKey)
  | emptied

/-- What is kept under a key after an event. -/
def CacheEvent.keptUnder (key : CacheKey) (kept : Option CacheEntry) :
    CacheEvent → Option CacheEntry
  | .stored entry => if entry.key = key then some entry else kept
  | .evicted other => if other = key then none else kept
  | .emptied => none

namespace LruMap

/-- Serves a request; the hint of a lookup is not used. -/
def serve (map : LruMap) : CacheRequest → Option CacheEntry × LruMap
  | .lookup key _ => map.lookup key
  | .insert key script info => (none, map.insert ⟨key, script, info⟩)
  | .sync generation => (none, map.sync generation)
  | .flush => (none, map.flush)

/-- Serves requests one after the other. -/
def serveAll (map : LruMap) : List CacheRequest → List (Option CacheEntry) × LruMap
  | [] => ([], map)
  | request :: rest =>
      let (answer, map) := map.serve request
      let (answers, map) := map.serveAll rest
      (answer :: answers, map)

/-- What a request makes happen: a new key evicts the least recently used one
when the map is full. -/
def events (map : LruMap) : CacheRequest → List CacheEvent
  | .lookup _ _ => []
  | .insert key script info =>
      if map.find? key = none ∧ map.capacity ≤ map.entries.length then
        map.entries.head?.toList.map (fun old => .evicted old.key) ++ [.stored ⟨key, script, info⟩]
      else
        [.stored ⟨key, script, info⟩]
  | .sync generation => if map.generation = generation then [] else [.emptied]
  | .flush => [.emptied]

/-- What requests make happen, in order. -/
def history (map : LruMap) : List CacheRequest → List CacheEvent
  | [] => []
  | request :: rest => map.events request ++ (map.serve request).2.history rest

theorem capacity_serve (map : LruMap) (request : CacheRequest) :
    (map.serve request).2.capacity = map.capacity := by
  cases request with
  | lookup key hint =>
      simp only [serve, lookup]
      split <;> rfl
  | insert key script info =>
      simp only [serve, insert]
      split
      · rfl
      · split <;> rfl
  | sync generation =>
      simp only [serve, sync]
      split <;> rfl
  | flush => rfl

theorem capacity_serveAll (map : LruMap) (requests : List CacheRequest) :
    (map.serveAll requests).2.capacity = map.capacity := by
  induction requests generalizing map with
  | nil => rfl
  | cons request rest ih => exact (ih _).trans (map.capacity_serve request)

/-! ## What the history tells -/

theorem find?_eq_some_iff {map : LruMap} (hkeys : (map.entries.map (·.key)).Nodup)
    {key : CacheKey} {entry : CacheEntry} :
    map.find? key = some entry ↔ entry ∈ map.entries ∧ entry.key = key := by
  constructor
  · intro h
    exact ⟨List.mem_of_find?_eq_some h, by simpa using List.find?_some h⟩
  · rintro ⟨hentry, rfl⟩
    obtain ⟨before, after, hentries⟩ := List.append_of_mem hentry
    exact find?_eq_some hentries hkeys

theorem find?_lookup {map : LruMap} (hkeys : (map.entries.map (·.key)).Nodup)
    {asked : CacheKey} (hafter : ((map.lookup asked).2.entries.map (·.key)).Nodup)
    (key : CacheKey) : (map.lookup asked).2.find? key = map.find? key := by
  cases hfound : map.find? asked with
  | none =>
      simp only [lookup, hfound]
      rfl
  | some entry =>
      have hentries : (map.lookup asked).2.entries = map.without asked ++ [entry] := by
        simp only [lookup, hfound]
      obtain ⟨hentry, hkey⟩ := (find?_eq_some_iff hkeys).mp hfound
      apply Option.ext
      intro other
      rw [find?_eq_some_iff hafter, find?_eq_some_iff hkeys, hentries, List.mem_append,
        mem_without, List.mem_singleton]
      constructor
      · rintro ⟨⟨hother, -⟩ | rfl, hsame⟩
        · exact ⟨hother, hsame⟩
        · exact ⟨hentry, hsame⟩
      · rintro ⟨hother, hsame⟩
        refine ⟨?_, hsame⟩
        by_cases hasked : other.key = asked
        · have hagain := (find?_eq_some_iff hkeys).mpr ⟨hother, hasked⟩
          rw [hfound] at hagain
          exact Or.inr (Option.some.inj hagain).symm
        · exact Or.inl ⟨hother, hasked⟩

/-- An entry put behind others is the one of its key, and those with another
key are as before. -/
theorem find?_concat (map : LruMap) {kept : List CacheEntry} {entry : CacheEntry}
    {after : LruMap} (hkeys : (map.entries.map (·.key)).Nodup) (hafter : (after.entries.map (·.key)).Nodup)
    (hentries : after.entries = kept ++ [entry]) {key : CacheKey}
    (hkept : ∀ other, other.key = key → entry.key ≠ key →
      (other ∈ kept ↔ other ∈ map.entries)) :
    after.find? key = if entry.key = key then some entry else map.find? key := by
  by_cases hkey : entry.key = key
  · rw [if_pos hkey, find?_eq_some_iff hafter, hentries]
    exact ⟨by simp, hkey⟩
  · rw [if_neg hkey]
    apply Option.ext
    intro other
    rw [find?_eq_some_iff hafter, find?_eq_some_iff hkeys, hentries, List.mem_append,
      List.mem_singleton]
    constructor
    · rintro ⟨hother | rfl, hsame⟩
      · exact ⟨(hkept other hsame hkey).mp hother, hsame⟩
      · exact absurd hsame hkey
    · rintro ⟨hother, hsame⟩
      exact ⟨Or.inl ((hkept other hsame hkey).mpr hother), hsame⟩

/-- What is kept when the least recently used entry is evicted. -/
theorem find?_tail {map : LruMap} (hkeys : (map.entries.map (·.key)).Nodup) (key : CacheKey) :
    ({ map with entries := map.entries.tail } : LruMap).find? key =
      (map.entries.head?.toList.map fun old => .evicted old.key).foldl
        (CacheEvent.keptUnder key) (map.find? key) := by
  unfold find?
  cases hentries : map.entries with
  | nil => rfl
  | cons old rest =>
      rw [hentries] at hkeys
      have hold := (List.nodup_cons.mp hkeys).1
      simp only [List.tail_cons, List.head?_cons, Option.toList_some, List.map_cons, List.map_nil,
        List.foldl_cons, List.foldl_nil, CacheEvent.keptUnder]
      by_cases hkey : old.key = key
      · rw [if_pos hkey]
        apply List.find?_eq_none.mpr
        intro other hother hsame
        obtain rfl : other.key = key := by simpa using hsame
        exact hold (List.mem_map.mpr ⟨other, hother, hkey.symm⟩)
      · rw [if_neg hkey, List.find?_cons_of_neg (by simpa using hkey)]

theorem find?_insert {map : LruMap} (hkeys : (map.entries.map (·.key)).Nodup) {key : CacheKey}
    {script : Script} {info : ProcInfo}
    (hafter : ((map.insert ⟨key, script, info⟩).entries.map (·.key)).Nodup) (other : CacheKey) :
    (map.insert ⟨key, script, info⟩).find? other =
      (map.events (.insert key script info)).foldl (CacheEvent.keptUnder other)
        (map.find? other) := by
  cases hfound : map.find? key with
  | some old =>
      have hentries : (map.insert ⟨key, script, info⟩).entries =
          map.without key ++ [⟨key, script, info⟩] := by
        simp only [insert, hfound]
      have hevents : map.events (.insert key script info) = [.stored ⟨key, script, info⟩] := by
        simp [events, hfound]
      rw [hevents]
      apply find?_concat map hkeys hafter hentries
      intro held hheld hne
      rw [mem_without]
      constructor
      · exact fun h => h.1
      · intro h
        exact ⟨h, fun hsame => hne (hsame.symm.trans hheld)⟩
  | none =>
      by_cases hroom : map.entries.length < map.capacity
      · have hentries : (map.insert ⟨key, script, info⟩).entries =
            map.entries ++ [⟨key, script, info⟩] := by
          simp only [insert, hfound, if_pos hroom]
        have hevents : map.events (.insert key script info) = [.stored ⟨key, script, info⟩] := by
          simp [events, hfound, hroom]
        rw [hevents]
        exact find?_concat map hkeys hafter hentries fun _ _ _ => Iff.rfl
      · have hentries : (map.insert ⟨key, script, info⟩).entries =
            map.entries.tail ++ [⟨key, script, info⟩] := by
          simp only [insert, hfound, if_neg hroom]
        have hevents : map.events (.insert key script info) =
            map.entries.head?.toList.map (fun old => .evicted old.key) ++
              [.stored ⟨key, script, info⟩] := by
          exact if_pos ⟨hfound, not_lt.mp hroom⟩
        have htail : ((map.entries.tail).map (·.key)).Nodup := by
          rw [List.map_tail]
          exact hkeys.tail
        rw [hevents, List.foldl_append, ← find?_tail hkeys]
        exact find?_concat { map with entries := map.entries.tail } htail hafter hentries
          fun _ _ _ => Iff.rfl

theorem find?_serve {map : LruMap} {request : CacheRequest}
    (hkeys : (map.entries.map (·.key)).Nodup)
    (hafter : ((map.serve request).2.entries.map (·.key)).Nodup) (key : CacheKey) :
    (map.serve request).2.find? key =
      (map.events request).foldl (CacheEvent.keptUnder key) (map.find? key) := by
  cases request with
  | lookup asked hint => exact find?_lookup hkeys hafter key
  | insert asked script info => exact find?_insert hkeys hafter key
  | flush => rfl
  | sync generation =>
      simp only [serve, sync, events]
      split
      · rfl
      · rfl

end LruMap

namespace ScriptCache

variable {cache : ScriptCache} {map : LruMap} {unused used : List Nat}

theorem Represents.size_eq (h : cache.Represents map unused used) :
    cache.size = map.entries.length := by
  have hslots : cache.slots.toList = (List.range cache.slots.size).map cache.slot := by
    apply List.ext_getElem
    · simp
    · intro index hindex _
      have hlt : index < cache.slots.size := by simpa using hindex
      simp [slot, hlt]
  have hperm : List.Perm (List.range cache.slots.size) (unused ++ used) := by
    apply (List.perm_ext_iff_of_nodup List.nodup_range h.ordered.nodup).mpr
    intro index
    rw [h.ordered.mem_iff, List.mem_range]
  have hunused : unused.countP (fun index => (cache.slot index).entry.isSome) = 0 := by
    apply List.countP_eq_zero.mpr
    intro index hindex
    simp [h.unused index hindex]
  have hused : used.countP (fun index => (cache.slot index).entry.isSome) =
      map.entries.length := by
    have hcount := congrArg (List.countP Option.isSome) h.used
    rw [List.countP_map, List.countP_map] at hcount
    refine hcount.trans (List.countP_eq_length.mpr ?_)
    intro entry _
    rfl
  unfold size
  rw [← Array.countP_toList, hslots, List.countP_map]
  refine (hperm.countP_eq _).trans ?_
  rw [List.countP_append]
  exact (congrArg₂ (· + ·) hunused hused).trans (Nat.zero_add _)

theorem Represents.serve (h : cache.Represents map unused used) (request : CacheRequest) :
    (cache.serve request).1 = (map.serve request).1 ∧
      ∃ unused' used',
        (cache.serve request).2.Represents (map.serve request).2 unused' used' := by
  cases request with
  | lookup key hint =>
      obtain ⟨hanswer, used', hafter⟩ := h.lookup key hint
      exact ⟨hanswer, unused, used', hafter⟩
  | insert key script info => exact ⟨rfl, h.insert key script info⟩
  | sync generation => exact ⟨rfl, h.sync generation⟩
  | flush => exact ⟨rfl, _, _, h.flush⟩

theorem Represents.serveAll (h : cache.Represents map unused used)
    (requests : List CacheRequest) :
    (cache.serveAll requests).1 = (map.serveAll requests).1 ∧
      (∃ unused' used',
        (cache.serveAll requests).2.Represents (map.serveAll requests).2 unused' used') ∧
      ∀ key, (map.serveAll requests).2.find? key =
        (map.history requests).foldl (CacheEvent.keptUnder key) (map.find? key) := by
  induction requests generalizing cache map unused used with
  | nil => exact ⟨rfl, ⟨unused, used, h⟩, fun _ => rfl⟩
  | cons request rest ih =>
      obtain ⟨hanswer, unused', used', hserved⟩ := h.serve request
      obtain ⟨hanswers, hafter, hkept⟩ := ih hserved
      refine ⟨?_, hafter, ?_⟩
      · exact congrArg₂ List.cons hanswer hanswers
      · intro key
        refine (hkept key).trans ?_
        rw [LruMap.find?_serve h.keys hserved.keys, ← List.foldl_append]
        rfl

/-- A cache made for any capacity serves any requests as a map of the clamped
capacity does, and its next lookup finds what the history has left of the key. -/
theorem serveAll_make (capacity : Nat) (requests : List CacheRequest) :
    let served := (make capacity).serveAll requests
    let spec := (LruMap.make (clampCapacity capacity)).serveAll requests
    served.1 = spec.1 ∧
      served.2.size = spec.2.entries.length ∧
      served.2.isEmpty = spec.2.entries.isEmpty ∧
      served.2.capacity = clampCapacity capacity ∧
      served.2.generation = spec.2.generation ∧
      served.2.stats = spec.2.stats ∧
      spec.2.entries.length ≤ clampCapacity capacity ∧
      (spec.2.entries.map (·.key)).Nodup ∧
      ∀ key hint, (served.2.lookup key hint).1.map (·.2) =
        ((LruMap.make (clampCapacity capacity)).history requests).foldl
          (CacheEvent.keptUnder key) none := by
  obtain ⟨hanswers, ⟨unused, used, h⟩, hkept⟩ := (Represents.make capacity).serveAll requests
  have hcapacity := LruMap.capacity_serveAll (LruMap.make (clampCapacity capacity)) requests
  have hlength := h.length_eq
  refine ⟨hanswers, h.size_eq, ?_, ?_, h.generation.symm, h.stats.symm, ?_, h.keys, ?_⟩
  · unfold isEmpty
    rw [h.size_eq]
    cases ((LruMap.make (clampCapacity capacity)).serveAll requests).2.entries <;> rfl
  · exact h.capacity.symm.trans hcapacity
  · rw [hcapacity] at hlength
    exact le_of_le_of_eq (Nat.le_add_left _ _) hlength
  · intro key hint
    rw [(h.lookup key hint).1]
    refine Eq.trans ?_ (hkept key)
    unfold LruMap.lookup
    split
    · rename_i hfound
      exact hfound.symm
    · rename_i hfound
      exact hfound.symm

end ScriptCache
end StackWalk
