import Mathlib.Tactic
import StackWalk.Action
import StackWalk.Proofs.OrderedList
import StackWalk.Region.Registry

/-!
# The registered regions are disjoint

A region is compared with its two neighbours only, and an address is looked up
in one region.  That is enough: every change keeps the regions in order and
apart from each other.
-/

namespace StackWalk

namespace Region

variable {region other : Region}

/-- The region was described by somebody. -/
def Made (region : Region) : Prop :=
  ∃ name start stop returnAddress ops,
    Region.make name start stop returnAddress ops = .ok region

/-- Some address lies in both regions. -/
def Overlaps (region other : Region) : Prop :=
  ∃ ip, region.contains ip = true ∧ other.contains ip = true

theorem make_eq_ok_iff {name : Option String} {start stop : UInt64} {returnAddress : Column}
    {ops : List RegionOp} :
    make name start stop returnAddress ops = .ok region ↔
      start < stop ∧
        region = ⟨name, start, stop, returnAddress,
          ops.mergeSort fun a b => a.offset ≤ b.offset⟩ := by
  unfold make
  grind

theorem Made.start_lt_stop (h : region.Made) : region.start < region.stop := by
  obtain ⟨name, start, stop, returnAddress, ops, hmake⟩ := h
  obtain ⟨hlt, rfl⟩ := make_eq_ok_iff.mp hmake
  exact hlt

theorem contains_iff {ip : UInt64} :
    region.contains ip = true ↔ region.start ≤ ip ∧ ip < region.stop := by
  simp [contains]

/-- Regions that are not empty overlap when each starts before the other
stops. -/
theorem overlaps_iff (hregion : region.start < region.stop) (hother : other.start < other.stop) :
    region.Overlaps other ↔ other.start < region.stop ∧ region.start < other.stop := by
  simp only [Overlaps, contains_iff]
  constructor
  · rintro ⟨ip, ⟨hstart, hstop⟩, hstart', hstop'⟩
    exact ⟨UInt64.lt_of_le_of_lt hstart' hstop, UInt64.lt_of_le_of_lt hstart hstop'⟩
  · rintro ⟨hfirst, hsecond⟩
    rcases UInt64.le_total region.start other.start with hle | hle
    · exact ⟨other.start, ⟨hle, hfirst⟩, UInt64.le_rfl, hother⟩
    · exact ⟨region.start, ⟨UInt64.le_rfl, hregion⟩, hle, hsecond⟩

end Region

namespace Registry

variable {registry : Registry} {region other : Region}

/-- No region is empty, and each stops before the later ones start. -/
structure Ordered (registry : Registry) : Prop where
  nonempty : ∀ region ∈ registry.regions, region.start < region.stop
  apart : registry.regions.Pairwise fun region other => region.stop ≤ other.start

/-- The regions that start before `ip`. -/
def below (registry : Registry) (ip : UInt64) : List Region :=
  registry.regions.filter (·.start < ip)

/-- The regions that start at `ip` or later. -/
def above (registry : Registry) (ip : UInt64) : List Region :=
  registry.regions.filter fun region => !(region.start < ip)

theorem mem_below {ip : UInt64} :
    region ∈ registry.below ip ↔ region ∈ registry.regions ∧ region.start < ip := by
  simp [below]

theorem mem_above {ip : UInt64} :
    region ∈ registry.above ip ↔ region ∈ registry.regions ∧ ip ≤ region.start := by
  simp [above]

namespace Ordered

theorem starts (h : registry.Ordered) :
    registry.regions.Pairwise fun region other => region.start < other.start :=
  h.apart.imp_of_mem fun hregion _ hapart => UInt64.lt_of_lt_of_le (h.nonempty _ hregion) hapart

theorem disjoint (h : registry.Ordered) :
    registry.regions.Pairwise fun region other => ¬region.Overlaps other := by
  refine h.apart.imp ?_
  rintro region other hapart ⟨ip, hregion, hother⟩
  rw [Region.contains_iff] at hregion hother
  exact UInt64.not_lt.mpr hother.1 (UInt64.lt_of_lt_of_le hregion.2 hapart)

/-! ## Registering -/

/-- The neighbours of the new region overlap it if any other does. -/
theorem neighbours (h : registry.Ordered) (hregion : region.start < region.stop) :
    (((registry.below region.start).getLast?.any (region.start < ·.stop) ||
      (registry.above region.start).head?.any (·.start < region.stop)) = true) ↔
      ∃ other ∈ registry.regions, region.Overlaps other := by
  have hstops : (registry.below region.start).Pairwise fun a b =>
      decide (region.start < a.stop) = true → decide (region.start < b.stop) = true := by
    refine (h.apart.filter _).imp_of_mem ?_
    intro a b _ hb hapart ha
    have hstop := h.nonempty b (mem_below.mp hb).1
    simp only [decide_eq_true_eq] at ha ⊢
    exact UInt64.lt_trans (UInt64.lt_of_lt_of_le ha hapart) hstop
  have hstarts : (registry.above region.start).Pairwise fun a b =>
      decide (b.start < region.stop) = true → decide (a.start < region.stop) = true := by
    refine (h.starts.filter _).imp ?_
    intro a b hstart hb
    simp only [decide_eq_true_eq] at hb ⊢
    exact UInt64.lt_trans hstart hb
  rw [any_getLast? hstops, any_head? hstarts, Bool.or_eq_true, List.any_eq_true, List.any_eq_true]
  simp only [decide_eq_true_eq, mem_below, mem_above]
  constructor
  · rintro (⟨other, ⟨hmem, hstart⟩, hstop⟩ | ⟨other, ⟨hmem, hstart⟩, hstop⟩) <;>
      refine ⟨other, hmem, (Region.overlaps_iff hregion (h.nonempty other hmem)).mpr ?_⟩
    · exact ⟨UInt64.lt_trans hstart hregion, hstop⟩
    · exact ⟨hstop, UInt64.lt_of_le_of_lt hstart (h.nonempty other hmem)⟩
  · rintro ⟨other, hmem, hoverlaps⟩
    obtain ⟨hstart, hstop⟩ := (Region.overlaps_iff hregion (h.nonempty other hmem)).mp hoverlaps
    by_cases hbelow : other.start < region.start
    · exact .inl ⟨other, ⟨hmem, hbelow⟩, hstop⟩
    · exact .inr ⟨other, ⟨hmem, UInt64.not_lt.mp hbelow⟩, hstart⟩

theorem register_eq (h : registry.Ordered) (region : Region) :
    registry.register region =
      if (registry.below region.start).getLast?.any (region.start < ·.stop) ||
          (registry.above region.start).head?.any (·.start < region.stop) then
        .error (.invalidArgument .regionOverlaps)
      else
        .ok (region, ⟨registry.below region.start ++ region :: registry.above region.start⟩) := by
  have hprefix : registry.regions.Pairwise fun a b =>
      decide (b.start < region.start) = true → decide (a.start < region.start) = true := by
    refine h.starts.imp ?_
    intro a b hab hb
    simp only [decide_eq_true_eq] at hb ⊢
    exact UInt64.lt_trans hab hb
  unfold register below above
  simp only [takeWhile_eq_filter hprefix, dropWhile_eq_filter hprefix]

theorem register_overlapping (h : registry.Ordered) (hregion : region.start < region.stop)
    (hoverlaps : ∃ other ∈ registry.regions, region.Overlaps other) :
    registry.register region = .error (.invalidArgument .regionOverlaps) := by
  rw [h.register_eq, if_pos ((h.neighbours hregion).mpr hoverlaps)]

theorem register_apart (h : registry.Ordered) (hregion : region.start < region.stop)
    (hapart : ∀ other ∈ registry.regions, ¬region.Overlaps other) :
    registry.register region =
      .ok (region, ⟨registry.below region.start ++ region :: registry.above region.start⟩) := by
  rw [h.register_eq, if_neg]
  rw [h.neighbours hregion]
  rintro ⟨other, hmem, hoverlaps⟩
  exact hapart other hmem hoverlaps

theorem insert (h : registry.Ordered) (hregion : region.start < region.stop)
    (hapart : ∀ other ∈ registry.regions, ¬region.Overlaps other) :
    Ordered ⟨registry.below region.start ++ region :: registry.above region.start⟩ := by
  have hbelow : ∀ other ∈ registry.below region.start, other.stop ≤ region.start := by
    intro other hother
    obtain ⟨hmem, hstart⟩ := mem_below.mp hother
    refine UInt64.not_lt.mp fun hstop => hapart other hmem ?_
    exact (Region.overlaps_iff hregion (h.nonempty other hmem)).mpr
      ⟨UInt64.lt_trans hstart hregion, hstop⟩
  have habove : ∀ other ∈ registry.above region.start, region.stop ≤ other.start := by
    intro other hother
    obtain ⟨hmem, hstart⟩ := mem_above.mp hother
    refine UInt64.not_lt.mp fun hstop => hapart other hmem ?_
    exact (Region.overlaps_iff hregion (h.nonempty other hmem)).mpr
      ⟨hstop, UInt64.lt_of_le_of_lt hstart (h.nonempty other hmem)⟩
  constructor
  · intro other hother
    rcases List.mem_append.mp hother with hother | hother
    · exact h.nonempty other (mem_below.mp hother).1
    · rcases List.mem_cons.mp hother with rfl | hother
      · exact hregion
      · exact h.nonempty other (mem_above.mp hother).1
  · refine List.pairwise_append.mpr ⟨h.apart.filter _, ?_, ?_⟩
    · exact List.pairwise_cons.mpr ⟨habove, h.apart.filter _⟩
    · intro first hfirst second hsecond
      rcases List.mem_cons.mp hsecond with rfl | hsecond
      · exact hbelow first hfirst
      · exact UInt64.le_trans (hbelow first hfirst) (mem_above.mp hsecond).2

/-! ## Removing -/

/-- At most one region starts at an address. -/
theorem one_start (h : registry.Ordered) (start : UInt64) :
    registry.regions.Pairwise fun region other =>
      (region.start == start) = true → (other.start == start) = false := by
  refine h.starts.imp ?_
  intro region other hlt hregion
  grind

theorem unregister_stored (h : registry.Ordered) (hmem : region ∈ registry.regions) :
    registry.unregister region.start =
      some (region, ⟨registry.regions.eraseP (·.start == region.start)⟩) := by
  have hfind : registry.regions.find? (·.start == region.start) = some region :=
    (find?_eq_some_iff_mem (h.one_start _)).mpr ⟨hmem, beq_self_eq_true _⟩
  simp only [unregister, hfind]

theorem eraseP (h : registry.Ordered) (drop : Region → Bool) :
    Ordered ⟨registry.regions.eraseP drop⟩ where
  nonempty region hregion := h.nonempty region (List.mem_of_mem_eraseP hregion)
  apart := h.apart.eraseP drop

/-! ## Finding -/

theorem find?_eq_some_iff (h : registry.Ordered) {ip : UInt64} :
    registry.find? ip = some region ↔ region ∈ registry.regions ∧ region.contains ip = true := by
  have hprefix : registry.regions.Pairwise fun a b =>
      decide (b.start ≤ ip) = true → decide (a.start ≤ ip) = true := by
    refine h.starts.imp ?_
    intro a b hab hb
    simp only [decide_eq_true_eq] at hb ⊢
    exact UInt64.le_trans (UInt64.le_of_lt hab) hb
  unfold find?
  rw [takeWhile_eq_filter hprefix, Option.filter_eq_some_iff]
  refine and_congr_left fun hcontains => ⟨fun hlast => ?_, fun hmem => ?_⟩
  · exact List.mem_of_mem_filter (List.mem_of_getLast? hlast)
  · obtain ⟨hstart, hstop⟩ := Region.contains_iff.mp hcontains
    refine getLast?_eq_some (h.apart.filter _)
      (List.mem_filter.mpr ⟨hmem, decide_eq_true hstart⟩) ?_
    -- a later region would start at the address or before, where this one goes on
    intro later hlater hapart
    have hle := of_decide_eq_true (List.mem_filter.mp hlater).2
    exact UInt64.not_lt.mpr (UInt64.le_trans hapart hle) hstop

end Ordered

/-! ## Changes -/

/-- A change of the registered regions. -/
inductive Change where
  | register (region : Region)
  | unregister (start : UInt64)
  deriving DecidableEq, Repr

/-- A region that is registered was described by somebody. -/
def Change.Proper : Change → Prop
  | .register region => region.Made
  | .unregister _ => True

/-- The registry after a change.  A region that is turned down, or that is not
there, leaves the registry as it is. -/
def change (registry : Registry) : Change → Registry
  | .register region =>
      match registry.register region with
      | .ok (_, changed) => changed
      | .error _ => registry
  | .unregister start =>
      match registry.unregister start with
      | some (_, changed) => changed
      | none => registry

def changes (registry : Registry) (list : List Change) : Registry :=
  list.foldl change registry

theorem unregister_unknown {start : UInt64}
    (hunknown : ∀ region ∈ registry.regions, region.start ≠ start) :
    registry.unregister start = none := by
  have hfind : registry.regions.find? (·.start == start) = none :=
    List.find?_eq_none.mpr fun region hmem => by simpa using hunknown region hmem
  simp only [unregister, hfind]

namespace Ordered

theorem change (h : registry.Ordered) {change : Change} (hproper : change.Proper) :
    (registry.change change).Ordered := by
  cases change with
  | register region =>
      have hregion := hproper.start_lt_stop
      unfold Registry.change
      by_cases hoverlaps : ∃ other ∈ registry.regions, region.Overlaps other
      · simpa only [h.register_overlapping hregion hoverlaps] using h
      · have hapart : ∀ other ∈ registry.regions, ¬region.Overlaps other :=
          fun other hmem hother => hoverlaps ⟨other, hmem, hother⟩
        simpa only [h.register_apart hregion hapart] using h.insert hregion hapart
  | unregister start =>
      unfold Registry.change
      by_cases hstored : ∃ region ∈ registry.regions, region.start = start
      · obtain ⟨region, hmem, rfl⟩ := hstored
        simpa only [h.unregister_stored hmem] using h.eraseP _
      · have hunknown : ∀ region ∈ registry.regions, region.start ≠ start :=
          fun region hmem hstart => hstored ⟨region, hmem, hstart⟩
        simpa only [unregister_unknown hunknown] using h

theorem changes (h : registry.Ordered) {list : List Change}
    (hproper : ∀ change ∈ list, change.Proper) : (registry.changes list).Ordered := by
  induction list generalizing registry with
  | nil => exact h
  | cons change rest ih =>
      exact ih (h.change (hproper change List.mem_cons_self))
        fun later hlater => hproper later (List.mem_cons_of_mem _ hlater)

end Ordered

theorem ordered_empty : empty.Ordered := by
  constructor <;> simp [empty]

/-- However the registry came about, its regions are in order and disjoint; a
region is registered when it overlaps none of them; what starts at an address
is removed; and an address is found in the region that holds it. -/
theorem disjoint_after_changes (list : List Change) (hproper : ∀ change ∈ list, change.Proper) :
    let registry := empty.changes list
    (∀ region ∈ registry.regions, region.start < region.stop) ∧
    registry.regions.Pairwise (fun region other => region.start < other.start) ∧
    registry.regions.Pairwise (fun region other => ¬region.Overlaps other) ∧
    (∀ region, region.Made →
      ((∀ other ∈ registry.regions, ¬region.Overlaps other) →
        registry.register region = .ok (region, registry.change (.register region)) ∧
        (registry.change (.register region)).regions.Perm (region :: registry.regions)) ∧
      ((∃ other ∈ registry.regions, region.Overlaps other) →
        registry.register region = .error (.invalidArgument .regionOverlaps) ∧
        registry.change (.register region) = registry)) ∧
    (∀ region ∈ registry.regions,
      registry.unregister region.start =
        some (region, registry.change (.unregister region.start)) ∧
      registry.regions.Perm (region :: (registry.change (.unregister region.start)).regions)) ∧
    (∀ start, (∀ region ∈ registry.regions, region.start ≠ start) →
      registry.unregister start = none ∧ registry.change (.unregister start) = registry) ∧
    ∀ ip,
      (∀ region, registry.find? ip = some region ↔
        region ∈ registry.regions ∧ region.contains ip = true) ∧
      (registry.find? ip = none ↔ ∀ region ∈ registry.regions, region.contains ip = false) := by
  intro registry
  have h : registry.Ordered := ordered_empty.changes hproper
  refine ⟨h.nonempty, h.starts, h.disjoint, ?_, ?_, ?_, ?_⟩
  · intro region hmade
    have hregion := hmade.start_lt_stop
    constructor
    · intro hapart
      have hregister := h.register_apart hregion hapart
      have hchange : registry.change (.register region) =
          ⟨registry.below region.start ++ region :: registry.above region.start⟩ := by
        simp only [Registry.change, hregister]
      rw [hchange]
      exact ⟨hregister, List.perm_middle.trans ((List.filter_append_perm _ _).cons region)⟩
    · intro hoverlaps
      have hregister := h.register_overlapping hregion hoverlaps
      exact ⟨hregister, by simp only [Registry.change, hregister]⟩
  · intro region hmem
    have hunregister := h.unregister_stored hmem
    have hchange : registry.change (.unregister region.start) =
        ⟨registry.regions.eraseP (·.start == region.start)⟩ := by
      simp only [Registry.change, hunregister]
    rw [hchange]
    exact ⟨hunregister, perm_cons_eraseP (h.one_start _) hmem (beq_self_eq_true _)⟩
  · intro start hunknown
    have hunregister := unregister_unknown hunknown
    exact ⟨hunregister, by simp only [Registry.change, hunregister]⟩
  · intro ip
    refine ⟨fun region => h.find?_eq_some_iff, ?_⟩
    simp only [Option.eq_none_iff_forall_ne_some, ne_eq, h.find?_eq_some_iff, not_and,
      Bool.not_eq_true]

/-- A region without a name or operations. -/
def bare (start stop : UInt64) : Region :=
  ⟨none, start, stop, 16, []⟩

theorem made_bare {start stop : UInt64} (h : start < stop) : (bare start stop).Made :=
  ⟨none, start, stop, 16, [], Region.make_eq_ok_iff.mpr ⟨h, by rw [List.mergeSort_nil]; rfl⟩⟩

/-- Two regions that touch, one that lies in the first and is turned down, and
one from the start of memory to the first. -/
def touching : List Change :=
  [.register (bare 0x100 0x200), .register (bare 0x200 0x300), .register (bare 0x140 0x180),
    .register (bare 0 0x100), .unregister 0x200]

theorem disjoint_after_changes_touching :
    (∀ change ∈ touching, change.Proper) ∧
    (empty.changes touching).find? 0 = some (bare 0 0x100) ∧
    (empty.changes touching).find? 0x1ff = some (bare 0x100 0x200) ∧
    (empty.changes touching).find? 0xffffffffffffffff = none ∧
    (empty.changes touching).register (bare 0xff 0x101) =
      .error (.invalidArgument .regionOverlaps) ∧
    (empty.changes touching).unregister 0x200 = none := by
  have hproper : ∀ change ∈ touching, change.Proper := by
    simp only [touching, List.forall_mem_cons]
    exact ⟨made_bare (by decide), made_bare (by decide), made_bare (by decide),
      made_bare (by decide), trivial, by simp⟩
  obtain ⟨-, -, -, hregister, -, hunknown, hfind⟩ := disjoint_after_changes touching hproper
  have hoverlaps : ∃ other ∈ (empty.changes touching).regions, (bare 0xff 0x101).Overlaps other :=
    ⟨bare 0 0x100, by decide, 0xff, by decide, by decide⟩
  exact ⟨hproper, ((hfind 0).1 _).mpr (by decide), ((hfind 0x1ff).1 _).mpr (by decide),
    (hfind 0xffffffffffffffff).2.mpr (by decide),
    ((hregister _ (made_bare (by decide))).2 hoverlaps).1, (hunknown 0x200 (by decide)).1⟩

end Registry
end StackWalk
