import Mathlib.Tactic

/-!
# Lists in order

In a list that is in order, a prefix is a selection, and the ends decide for
all between them.
-/

namespace StackWalk

variable {α : Type} {p : α → Bool} {list : List α} {a : α}

/-! ## What holds up to some place -/

theorem takeWhile_eq_filter (h : list.Pairwise fun a b => p b = true → p a = true) :
    list.takeWhile p = list.filter p := by
  induction list with
  | nil => rfl
  | cons a rest ih =>
      obtain ⟨hhead, hrest⟩ := List.pairwise_cons.mp h
      by_cases ha : p a = true
      · rw [List.takeWhile_cons_of_pos ha, List.filter_cons_of_pos ha, ih hrest]
      · have hnone : rest.filter p = [] :=
          List.filter_eq_nil_iff.mpr fun b hb hpb => ha (hhead b hb hpb)
        rw [List.takeWhile_cons_of_neg ha, List.filter_cons_of_neg ha, hnone]

theorem dropWhile_eq_filter (h : list.Pairwise fun a b => p b = true → p a = true) :
    list.dropWhile p = list.filter fun a => !p a := by
  induction list with
  | nil => rfl
  | cons a rest ih =>
      obtain ⟨hhead, hrest⟩ := List.pairwise_cons.mp h
      by_cases ha : p a = true
      · rw [List.dropWhile_cons_of_pos ha, List.filter_cons_of_neg (by simp [ha]), ih hrest]
      · have hall : rest.filter (fun b => !p b) = rest :=
          List.filter_eq_self.mpr fun b hb => by
            simpa using fun hpb => ha (hhead b hb hpb)
        rw [List.dropWhile_cons_of_neg ha, List.filter_cons_of_pos (by simp [ha]), hall]

theorem any_head? (h : list.Pairwise fun a b => p b = true → p a = true) :
    list.head?.any p = list.any p := by
  cases list with
  | nil => rfl
  | cons a rest =>
      have hhead := (List.pairwise_cons.mp h).1
      rw [Bool.eq_iff_iff]
      simpa using hhead

theorem any_getLast? (h : list.Pairwise fun a b => p a = true → p b = true) :
    list.getLast?.any p = list.any p := by
  rw [← List.head?_reverse, ← List.any_reverse]
  exact any_head? (List.pairwise_reverse.mpr h)

/-- What comes before nothing is the last. -/
theorem getLast?_eq_some {r : α → α → Prop} (h : list.Pairwise r) (ha : a ∈ list)
    (hlast : ∀ b ∈ list, ¬r a b) : list.getLast? = some a := by
  obtain ⟨before, after, rfl⟩ := List.append_of_mem ha
  cases after with
  | nil => exact List.getLast?_concat
  | cons b rest =>
      obtain ⟨-, hpairs, -⟩ := List.pairwise_append.mp h
      exact absurd ((List.pairwise_cons.mp hpairs).1 b List.mem_cons_self) (hlast b (by simp))

/-! ## What holds in one place -/

theorem find?_eq_some_iff_mem (h : list.Pairwise fun a b => p a = true → p b = false) :
    list.find? p = some a ↔ a ∈ list ∧ p a = true := by
  refine ⟨fun hfind => ⟨List.mem_of_find?_eq_some hfind, List.find?_some hfind⟩, ?_⟩
  rintro ⟨hmem, hpa⟩
  obtain ⟨before, after, rfl⟩ := List.append_of_mem hmem
  refine List.find?_eq_some_iff_append.mpr ⟨hpa, before, after, rfl, ?_⟩
  intro b hb
  have hcross := (List.pairwise_append.mp h).2.2 b hb a List.mem_cons_self
  cases hpb : p b with
  | false => rfl
  | true => exact absurd hpa (by simp [hcross hpb])

theorem perm_cons_eraseP (h : list.Pairwise fun a b => p a = true → p b = false)
    (ha : a ∈ list) (hpa : p a = true) : list.Perm (a :: list.eraseP p) := by
  obtain ⟨b, before, after, hbefore, hpb, hlist, herase⟩ := List.exists_of_eraseP ha hpa
  have hfirst : list.find? p = some b :=
    List.find?_eq_some_iff_append.mpr ⟨hpb, before, after, hlist, by simpa using hbefore⟩
  obtain rfl : a = b := Option.some.inj
    (((find?_eq_some_iff_mem h).mpr ⟨ha, hpa⟩).symm.trans hfirst)
  rw [herase, hlist]
  exact List.perm_middle

/-! ## Keys -/

section Keys

variable {key : α → Nat}

theorem filter_lt_succ (h : list.Pairwise fun a b => key a ≤ key b) (bound : Nat) :
    list.filter (key · < bound + 1) =
      list.filter (key · < bound) ++ list.filter (key · == bound) := by
  induction list with
  | nil => rfl
  | cons a rest ih =>
      obtain ⟨hhead, hrest⟩ := List.pairwise_cons.mp h
      simp only [List.filter_cons, decide_eq_true_eq, beq_iff_eq, ih hrest]
      by_cases hbelow : key a < bound
      · rw [if_pos (hbelow.trans (Nat.lt_succ_self bound)), if_pos hbelow, if_neg hbelow.ne,
          List.cons_append]
      · have hnone : rest.filter (key · < bound) = [] :=
          List.filter_eq_nil_iff.mpr fun b hb => by
            have := hhead b hb
            simp only [decide_eq_true_eq]
            omega
        rw [if_neg hbelow, hnone, List.nil_append, List.nil_append]
        by_cases hat : key a = bound
        · rw [if_pos hat, if_pos (by omega)]
        · rw [if_neg hat, if_neg (by omega)]

/-- What is in order by a key comes key by key. -/
theorem filter_lt_eq_flatMap (h : list.Pairwise fun a b => key a ≤ key b) (bound : Nat) :
    list.filter (key · < bound) =
      (List.range bound).flatMap fun value => list.filter (key · == value) := by
  induction bound with
  | zero => simp
  | succ bound ih =>
      rw [filter_lt_succ h, ih, List.range_succ, List.flatMap_append, List.flatMap_singleton]

/-- What has which key, and in which order, is all there is to know. -/
theorem eq_of_filter_eq {other : List α} {bound : Nat} (hbound : ∀ a, key a < bound)
    (h : list.Pairwise fun a b => key a ≤ key b) (hother : other.Pairwise fun a b => key a ≤ key b)
    (hsame : ∀ value, list.filter (key · == value) = other.filter (key · == value)) :
    list = other := by
  have hall : ∀ whole : List α, whole.filter (key · < bound) = whole := fun whole =>
    List.filter_eq_self.mpr fun a _ => decide_eq_true (hbound a)
  rw [← hall list, ← hall other, filter_lt_eq_flatMap h, filter_lt_eq_flatMap hother]
  simp only [hsame]

theorem key_trans (a b c : α) (hab : decide (key a ≤ key b) = true)
    (hbc : decide (key b ≤ key c) = true) : decide (key a ≤ key c) = true :=
  decide_eq_true ((of_decide_eq_true hab).trans (of_decide_eq_true hbc))

theorem key_total (a b : α) : (decide (key a ≤ key b) || decide (key b ≤ key a)) = true := by
  simpa using le_total (key a) (key b)

theorem pairwise_sortByKey (list : List α) :
    (list.mergeSort fun a b => key a ≤ key b).Pairwise fun a b => key a ≤ key b :=
  (List.pairwise_mergeSort key_trans key_total list).imp of_decide_eq_true

/-- Sorting by a key leaves what has the same key in its order. -/
theorem filter_sortByKey (list : List α) (value : Nat) :
    (list.mergeSort fun a b => key a ≤ key b).filter (key · == value) =
      list.filter (key · == value) := by
  have hequal : (list.filter (key · == value)).Pairwise fun a b =>
      decide (key a ≤ key b) = true := by
    refine List.pairwise_of_forall_mem_list fun a ha b hb => decide_eq_true ?_
    rw [eq_of_beq (List.mem_filter.mp ha).2, eq_of_beq (List.mem_filter.mp hb).2]
  have hsub := List.sublist_mergeSort key_trans key_total hequal List.filter_sublist
  have hkept := hsub.filter (key · == value)
  simp only [List.filter_filter, Bool.and_self] at hkept
  exact (hkept.eq_of_length
    ((List.mergeSort_perm list _).filter _).length_eq.symm).symm

end Keys

end StackWalk
