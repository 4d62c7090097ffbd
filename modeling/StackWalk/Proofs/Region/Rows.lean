import Mathlib.Tactic
import StackWalk.Arch.Shipped
import StackWalk.Proofs.Cursor.RuleColumns
import StackWalk.Proofs.OrderedList
import StackWalk.Proofs.Region.Registry

/-!
# Rows of regions

A row depends on the operations in force alone, in order of their offsets and
for one offset in the order given.  They are executed here one after the other
over the table in effect and everything that was recorded so far, without a
workspace and without sorting.
-/

namespace StackWalk

/-! ## The operations in force -/

/-- There is no predicate, or it is one of those that can be known, and it is not
known to be false. -/
def Predicates.Allows (predicates : Predicates) (predicate : Option Nat) : Prop :=
  ∀ bit ∈ predicate, bit < 64 ∧
    (predicates.mask.toNat.testBit bit = true → predicates.value.toNat.testBit bit = true)

/-- The predicate is not known to be false. -/
def Predicates.Unrefuted (predicates : Predicates) (predicate : Option Nat) : Prop :=
  ∀ bit ∈ predicate,
    predicates.mask.toNat.testBit bit = true → predicates.value.toNat.testBit bit = true

instance (predicates : Predicates) : DecidablePred predicates.Allows := fun predicate =>
  inferInstanceAs (Decidable (∀ bit ∈ predicate, _))

instance (predicates : Predicates) : DecidablePred predicates.Unrefuted := fun predicate =>
  inferInstanceAs (Decidable (∀ bit ∈ predicate, _))

theorem Predicates.holds_iff {predicates : Predicates} {predicate : Option Nat} :
    predicates.holds predicate = true ↔ predicates.Allows predicate := by
  cases predicate with
  | none => simp [holds, Allows]
  | some bit =>
      simp only [holds, Allows, Option.mem_some_iff, forall_eq', Bool.and_eq_true, Bool.or_eq_true,
        decide_eq_true_eq, Bool.not_eq_true', ← Bool.not_eq_true, or_iff_not_imp_left, not_not]

/-- The operations up to `reached` bytes into a region whose predicates are as
`takesEffect` says: offset by offset, those of one offset as given. -/
def Region.inForce (ops : List RegionOp) (takesEffect : Option Nat → Prop)
    [DecidablePred takesEffect] (reached : UInt64) : List RegionOp :=
  (List.range (reached.toNat + 1)).flatMap fun offset =>
    ops.filter fun op => op.offset.toNat == offset && decide (takesEffect op.predicate)

/-! ## Executing them -/

namespace Region

/-- What the operations executed so far have left behind. -/
structure Trace where
  /-- The table in effect. -/
  table : RuleTable
  /-- The tables recorded so far, the latest first. -/
  recorded : List (UInt64 × RuleTable)

namespace Trace

/-- The default row. -/
def start (arch : Arch) : Trace where
  table := .default arch
  recorded := []

/-- The table recorded last under a label. -/
def last? (trace : Trace) (label : UInt64) : Option RuleTable :=
  (trace.recorded.find? (·.1 == label)).map Prod.snd

/-- How many labels there are tables for. -/
def labelCount (trace : Trace) : Nat :=
  (trace.recorded.map Prod.fst).dedup.length

/-- Executes the effect of one operation. -/
def next (arch : Arch) (trace : Trace) : RegionEffect → Except UnwindError Trace
  | .defCfa register offset => do
      let register ← arch.checkColumn register
      return { trace with table := { trace.table with cfa := .registerOffset register offset } }
  | .saveReg register target => do
      let target ← arch.checkColumn target
      let table ← trace.table.set (UInt64.ofNat register) (.inRegister target)
      return { trace with table := table }
  | .spill register offset => do
      let table ← trace.table.set (UInt64.ofNat register) (.cfaRelative offset)
      return { trace with table := table }
  | .restore register => do
      let table ← trace.table.set (UInt64.ofNat register) .sameValue
      return { trace with table := table }
  | .labelState label =>
      if trace.last? label = none ∧ Workspace.maxLabels ≤ trace.labelCount then
        .error (.outOfMemory .labeledStates)
      else
        .ok { trace with recorded := (label, trace.table) :: trace.recorded }
  | .copyState label =>
      match trace.last? label with
      | some table => .ok { trace with table := table }
      | none => .error (.invalidArgument .unknownLabel)
  | .stop =>
      .error .stopUnwind

/-- Executes operations one after the other, up to the first that fails. -/
def run (arch : Arch) (trace : Trace) (ops : List RegionOp) : Except UnwindError Trace :=
  ops.foldlM (fun trace op => trace.next arch op.effect) trace

/-- The default row with the table in effect. -/
def row (trace : Trace) (arch : Arch) (returnAddress : Column) : Row :=
  { Row.default arch returnAddress with current := trace.table }

end Trace

end Region

/-! ## The workspace -/

namespace Workspace

variable {ws after : Workspace} {name : UInt64} {table : RuleTable}

/-- The table put aside under a label. -/
def last? (ws : Workspace) (label : UInt64) : Option RuleTable :=
  (ws.labels.find? (·.1 == label)).map Prod.snd

theorem mem_labels_iff {entries : List (UInt64 × RuleTable)} :
    name ∈ entries.map Prod.fst ↔ (entries.find? (·.1 == name)).map Prod.snd ≠ none := by
  rw [ne_eq, Option.map_eq_none_iff, List.find?_eq_none]
  simp

theorem last?_eq_none_iff : ws.last? name = none ↔ ws.labels.any (·.1 == name) = false := by
  rw [last?, Option.map_eq_none_iff, List.find?_eq_none, List.any_eq_false]

theorem label_eq_error (hnew : ws.last? name = none) (hfull : maxLabels ≤ ws.labels.length) :
    ws.label name table = .error (.outOfMemory .labeledStates) := by
  unfold label
  rw [last?_eq_none_iff.mp hnew, if_neg Bool.false_ne_true, if_neg hfull.not_gt]

/-- An entry with another table in place of the one under the label. -/
def replaced (name : UInt64) (table : RuleTable) (entry : UInt64 × RuleTable) :
    UInt64 × RuleTable :=
  if entry.1 == name then (name, table) else entry

theorem replaced_fst (entry : UInt64 × RuleTable) : (replaced name table entry).1 = entry.1 := by
  unfold replaced
  grind

theorem label_stored (hstored : ws.last? name ≠ none) :
    ws.label name table = .ok { ws with labels := ws.labels.map (replaced name table) } := by
  have hany := (not_congr last?_eq_none_iff).mp hstored
  unfold label
  rw [if_pos (by simpa using hany)]
  rfl

theorem label_new (hnew : ws.last? name = none) (hroom : ws.labels.length < maxLabels) :
    ws.label name table = .ok { ws with labels := ws.labels ++ [(name, table)] } := by
  unfold label
  rw [last?_eq_none_iff.mp hnew, if_neg Bool.false_ne_true, if_pos hroom]

theorem last?_replaced (hstored : ws.last? name ≠ none) (other : UInt64) :
    last? { ws with labels := ws.labels.map (replaced name table) } other =
      if other = name then some table else ws.last? other := by
  have hkeys : (fun entry => (replaced name table entry).1 == other) = (·.1 == other) := by
    funext entry
    rw [replaced_fst]
  simp only [last?, List.find?_map, Function.comp_def, hkeys]
  cases hfind : ws.labels.find? (·.1 == other) with
  | none =>
      have hne : other ≠ name := by
        rintro rfl
        exact hstored (Option.map_eq_none_iff.mpr hfind)
      rw [if_neg hne]
      rfl
  | some entry =>
      have hentry : entry.1 = other := by simpa using List.find?_some hfind
      simp only [Option.map_some, replaced, hentry, beq_iff_eq]
      split <;> rfl

theorem last?_append (hnew : ws.last? name = none) (other : UInt64) :
    last? { ws with labels := ws.labels ++ [(name, table)] } other =
      if other = name then some table else ws.last? other := by
  have hnone := Option.map_eq_none_iff.mp hnew
  simp only [last?, List.find?_append]
  split
  · rename_i hname
    subst hname
    simp [hnone]
  · rename_i hname
    simp [Ne.symm hname]

/-- Where there is room for the label, the table put aside under it is the last
one. -/
theorem exists_label (table : RuleTable) (hnodup : (ws.labels.map Prod.fst).Nodup)
    (hroom : ws.last? name = none → ws.labels.length < maxLabels) :
    ∃ after, ws.label name table = .ok after ∧ (after.labels.map Prod.fst).Nodup ∧
      ∀ other, after.last? other = if other = name then some table else ws.last? other := by
  by_cases hnew : ws.last? name = none
  · refine ⟨_, label_new hnew (hroom hnew), ?_, last?_append hnew⟩
    rw [List.map_append]
    refine hnodup.append (List.nodup_singleton name) (List.disjoint_singleton.mpr fun hmem => ?_)
    exact mem_labels_iff.mp hmem hnew
  · refine ⟨_, label_stored hnew, ?_, last?_replaced hnew⟩
    simpa only [List.map_map, Function.comp_def, replaced_fst] using hnodup

theorem labeled_eq (ws : Workspace) (name : UInt64) :
    ws.labeled name =
      match ws.last? name with
      | some table => .ok table
      | none => .error (.invalidArgument .unknownLabel) := by
  unfold labeled last?
  cases ws.labels.find? (·.1 == name) <;> rfl

end Workspace

namespace Region

/-- The workspace holds for each label what was recorded last. -/
structure Follows (arch : Arch) (returnAddress : Column) (row : Row) (ws : Workspace)
    (trace : Trace) : Prop where
  row_eq : row = trace.row arch returnAddress
  sized : Sized arch.numRegs row ws
  nodup : (ws.labels.map Prod.fst).Nodup
  last : ∀ label, ws.last? label = trace.last? label

/-- Both fail with one error, or both go on and the workspace still holds what
was recorded. -/
def Agree (arch : Arch) (returnAddress : Column) :
    Except UnwindError (Row × Workspace) → Except UnwindError Trace → Prop
  | .ok (row, ws), .ok trace => Follows arch returnAddress row ws trace
  | .error e, .error e' => e = e'
  | _, _ => False

section Follows

variable {arch : Arch} {returnAddress : Column} {row : Row} {ws : Workspace} {trace : Trace}

theorem Follows.start (arch : Arch) (returnAddress : Column) (ws : Workspace) :
    Follows arch returnAddress (Row.default arch returnAddress) ws.reset (Trace.start arch) where
  row_eq := rfl
  sized := Sized.start arch returnAddress ws
  nodup := List.nodup_nil
  last _ := rfl

theorem Follows.withTable (h : Follows arch returnAddress row ws trace) {table : RuleTable}
    (hsize : table.numRegs = arch.numRegs) :
    Follows arch returnAddress { row with current := table } ws { trace with table := table } where
  row_eq := by
    rw [h.row_eq]
    rfl
  sized := h.sized.withCurrent hsize
  nodup := h.nodup
  last := h.last

theorem Follows.current_eq (h : Follows arch returnAddress row ws trace) :
    row.current = trace.table := by
  rw [h.row_eq]
  rfl

theorem Follows.labelCount_eq (h : Follows arch returnAddress row ws trace) :
    trace.labelCount = ws.labels.length := by
  have hsame : ((trace.recorded.map Prod.fst).dedup).Perm (ws.labels.map Prod.fst) := by
    refine (List.perm_ext_iff_of_nodup (List.nodup_dedup _) h.nodup).mpr fun name => ?_
    rw [List.mem_dedup]
    rw [Workspace.mem_labels_iff, Workspace.mem_labels_iff]
    exact not_congr (by rw [← Trace.last?, ← Workspace.last?, h.last])
  rw [Trace.labelCount, hsame.length_eq, List.length_map]

/-- A rule is set alike. -/
theorem Follows.set (h : Follows arch returnAddress row ws trace) (reg : UInt64)
    (rule : RegisterRule) :
    Agree arch returnAddress
      (row.current.set reg rule >>= fun table => pure ({ row with current := table }, ws))
      (trace.table.set reg rule >>= fun table => pure { trace with table := table }) := by
  rw [h.current_eq]
  cases hset : trace.table.set reg rule with
  | error e => exact rfl
  | ok table =>
      exact h.withTable ((RuleTable.numRegs_set hset).trans (h.current_eq ▸ h.sized.current))

/-- The rule that a column is restored to is that of the default row. -/
theorem Follows.restored (h : Follows arch returnAddress row ws trace) (reg : UInt64) :
    (row.initial.get reg >>= fun rule => row.current.set reg rule) =
      row.current.set reg .sameValue := by
  have hinitial : row.initial = RuleTable.default arch := by
    rw [h.row_eq]
    rfl
  have hsize : row.current.numRegs = (RuleTable.default arch).numRegs := h.sized.current
  unfold RuleTable.get RuleTable.set
  rw [hinitial, hsize]
  split <;> simp [*]

theorem Follows.labelState (h : Follows arch returnAddress row ws trace) (label : UInt64) :
    Agree arch returnAddress
      (ws.label label row.current >>= fun ws => pure (row, ws))
      (trace.next arch (.labelState label)) := by
  unfold Trace.next
  dsimp only
  rw [h.labelCount_eq, ← h.last, h.current_eq]
  split
  · rename_i hfull
    rw [Workspace.label_eq_error hfull.1 hfull.2]
    exact rfl
  · rename_i hroom
    obtain ⟨after, hlabel, hnodup, hlast⟩ := Workspace.exists_label trace.table h.nodup
      fun hnew => not_le.mp fun hfull => hroom ⟨hnew, hfull⟩
    rw [hlabel]
    refine ⟨h.row_eq, h.sized.label (h.current_eq ▸ hlabel), hnodup, fun other => ?_⟩
    rw [hlast, h.last, Trace.last?, Trace.last?, List.find?_cons]
    grind

theorem Follows.copyState (h : Follows arch returnAddress row ws trace) (label : UInt64) :
    Agree arch returnAddress
      (ws.labeled label >>= fun table => pure ({ row with current := table }, ws))
      (trace.next arch (.copyState label)) := by
  unfold Trace.next
  dsimp only
  rw [Workspace.labeled_eq, h.last]
  cases hlast : trace.last? label with
  | none => exact rfl
  | some table => 
      have hlabeled : ws.labeled label = .ok table := by
        rw [Workspace.labeled_eq, h.last, hlast]
      exact h.withTable (h.sized.labeled hlabeled).current

theorem Follows.next (h : Follows arch returnAddress row ws trace) (effect : RegionEffect) :
    Agree arch returnAddress (execute arch row ws effect) (trace.next arch effect) := by
  cases effect with
  | defCfa register offset =>
      unfold execute Trace.next
      dsimp only
      cases arch.checkColumn register with
      | error e => exact rfl
      | ok register =>
          rw [ok_bind, ok_bind, ← h.current_eq]
          exact h.withTable h.sized.current
  | saveReg register target =>
      unfold execute Trace.next
      dsimp only
      cases arch.checkColumn target with
      | error e => exact rfl
      | ok target => exact h.set _ _
  | spill register offset => exact h.set _ _
  | restore register =>
      unfold execute
      dsimp only
      rw [← bind_assoc, h.restored]
      exact h.set _ _
  | labelState label => exact h.labelState label
  | copyState label => exact h.copyState label
  | stop => exact rfl

theorem Follows.run (h : Follows arch returnAddress row ws trace) (predicates : Predicates)
    (ops : List RegionOp) :
    (Region.run arch predicates ops row ws).1 =
      (trace.run arch (ops.filter fun op => predicates.holds op.predicate)).map
        (·.row arch returnAddress) := by
  induction ops generalizing row ws trace with
  | nil => exact congrArg Except.ok h.row_eq
  | cons op rest ih =>
      unfold Region.run
      by_cases hholds : predicates.holds op.predicate = true
      · rw [if_pos hholds, List.filter_cons, if_pos hholds, Trace.run, List.foldlM_cons]
        have hagree := h.next op.effect
        cases hrow : execute arch row ws op.effect with
        | error e =>
            cases htrace : trace.next arch op.effect with
            | error e' =>
                rw [hrow, htrace] at hagree
                exact congrArg Except.error hagree
            | ok after =>
                rw [hrow, htrace] at hagree
                exact hagree.elim
        | ok after =>
            cases htrace : trace.next arch op.effect with
            | error e' =>
                rw [hrow, htrace] at hagree
                exact hagree.elim
            | ok next =>
                rw [hrow, htrace] at hagree
                exact ih hagree
      · rw [if_neg hholds, List.filter_cons, if_neg hholds]
        exact ih h

end Follows

/-! ## The order of the operations -/

/-- The operations as a region keeps them. -/
def inOrder (ops : List RegionOp) : List RegionOp :=
  ops.mergeSort fun a b => a.offset.toNat ≤ b.offset.toNat

theorem ops_of_make {name : Option String} {start stop : UInt64} {returnAddress : Column}
    {ops : List RegionOp} {region : Region}
    (h : make name start stop returnAddress ops = .ok region) :
    region = ⟨name, start, stop, returnAddress, inOrder ops⟩ :=
  (make_eq_ok_iff.mp h).2

theorem pairwise_inOrder (ops : List RegionOp) :
    (inOrder ops).Pairwise fun a b => a.offset.toNat ≤ b.offset.toNat :=
  pairwise_sortByKey ops

theorem filter_inOrder (ops : List RegionOp) (offset : Nat) :
    (inOrder ops).filter (·.offset.toNat == offset) = ops.filter (·.offset.toNat == offset) :=
  filter_sortByKey ops offset

theorem takeWhile_inOrder (ops : List RegionOp) (reached : UInt64) :
    (inOrder ops).takeWhile (·.offset ≤ reached) = (inOrder ops).filter (·.offset ≤ reached) := by
  refine takeWhile_eq_filter ((pairwise_inOrder ops).imp ?_)
  intro a b hab hb
  simp only [decide_eq_true_eq, UInt64.le_iff_toNat_le] at hb ⊢
  omega

/-- In the order that a region keeps, the operations in force are selected. -/
theorem inForce_eq (ops : List RegionOp) (takesEffect : Option Nat → Prop)
    [DecidablePred takesEffect] (reached : UInt64) :
    inForce ops takesEffect reached =
      ((inOrder ops).filter (·.offset ≤ reached)).filter fun op =>
        decide (takesEffect op.predicate) := by
  have hreached : (fun op : RegionOp => decide (op.offset ≤ reached)) =
      fun op => decide (op.offset.toNat < reached.toNat + 1) := by
    funext op
    simp only [UInt64.le_iff_toNat_le, Nat.lt_succ_iff]
  rw [hreached, filter_lt_eq_flatMap (pairwise_inOrder ops), List.filter_flatMap]
  simp only [inForce, filter_inOrder, List.filter_filter, Bool.and_comm]

theorem inOrder_congr {ops other : List RegionOp}
    (h : ∀ offset, other.filter (·.offset.toNat == offset) =
      ops.filter (·.offset.toNat == offset)) :
    inOrder other = inOrder ops := by
  refine eq_of_filter_eq (fun op => op.offset.toNat_lt) (pairwise_inOrder other)
    (pairwise_inOrder ops) fun offset => ?_
  rw [filter_inOrder, filter_inOrder, h offset]

/-- Between two addresses without an operation in between, nothing comes into
force. -/
theorem inForce_congr {ops : List RegionOp} {takesEffect : Option Nat → Prop}
    [DecidablePred takesEffect] {reached later : UInt64} (hle : reached ≤ later)
    (hbetween : ∀ op ∈ ops, ¬(reached < op.offset ∧ op.offset ≤ later)) :
    inForce ops takesEffect later = inForce ops takesEffect reached := by
  rw [inForce_eq, inForce_eq]
  congr 1
  refine List.filter_congr fun op hop => decide_eq_decide.mpr ⟨fun hlater => ?_, fun hreached => ?_⟩
  · have hmem : op ∈ ops := List.mem_mergeSort.mp hop
    exact UInt64.not_lt.mp fun hlt => hbetween op hmem ⟨hlt, hlater⟩
  · exact UInt64.le_trans hreached hle

/-! ## Rows -/

section Rows

variable {arch : Arch} {name : Option String} {start stop : UInt64} {returnAddress : Column}
  {ops : List RegionOp} {region : Region}

theorem rowAt_eq (hmake : make name start stop returnAddress ops = .ok region)
    (hcolumn : returnAddress < arch.numRegs) {ip : UInt64} (hip : region.contains ip = true)
    (predicates : Predicates) (ws : Workspace) :
    (region.rowAt arch ws ip predicates).1 =
      ((Trace.start arch).run arch (inForce ops predicates.Allows (ip - start))).map
        (·.row arch returnAddress) := by
  obtain rfl := ops_of_make hmake
  have hholds : (fun op : RegionOp => predicates.holds op.predicate) =
      fun op => decide (predicates.Allows op.predicate) := by
    funext op
    rw [Bool.eq_iff_iff, decide_eq_true_eq, Predicates.holds_iff]
  unfold rowAt
  rw [if_pos hip]
  simp only [Arch.checkColumn, if_pos hcolumn]
  rw [(Follows.start arch returnAddress ws).run, takeWhile_inOrder, hholds, ← inForce_eq]

/-- A row is made of the operations in force, whatever is in the workspace.
So other orders of the operations do not matter as long as those of one offset
keep theirs, and a row holds up to the next operation. -/
theorem rowAt_inForce (hmake : make name start stop returnAddress ops = .ok region)
    (hcolumn : returnAddress < arch.numRegs) (predicates : Predicates) :
    (∀ ip ws, region.contains ip = true →
      (region.rowAt arch ws ip predicates).1 =
        ((Trace.start arch).run arch (inForce ops predicates.Allows (ip - start))).map
          (·.row arch returnAddress)) ∧
    (∀ other : List RegionOp,
      (∀ offset, other.filter (·.offset.toNat == offset) =
        ops.filter (·.offset.toNat == offset)) →
      make name start stop returnAddress other = .ok region) ∧
    ∀ ip later ws ws', region.contains ip = true → region.contains later = true → ip ≤ later →
      (∀ op ∈ ops, ¬(ip - start < op.offset ∧ op.offset ≤ later - start)) →
      (region.rowAt arch ws later predicates).1 = (region.rowAt arch ws' ip predicates).1 := by
  refine ⟨fun ip ws hip => rowAt_eq hmake hcolumn hip predicates ws, ?_, ?_⟩
  · intro other hsame
    obtain ⟨hlt, rfl⟩ := make_eq_ok_iff.mp hmake
    exact make_eq_ok_iff.mpr
      ⟨hlt, congrArg (Region.mk name start stop returnAddress) (inOrder_congr hsame).symm⟩
  · intro ip later ws ws' hip hlater hle hbetween
    have hreached : ip - start ≤ later - start := by
      obtain ⟨-, rfl⟩ := make_eq_ok_iff.mp hmake
      have hstart := (contains_iff.mp hip).1
      rw [UInt64.le_iff_toNat_le, UInt64.toNat_sub_of_le _ _ hstart,
        UInt64.toNat_sub_of_le _ _ (UInt64.le_trans hstart hle)]
      exact Nat.sub_le_sub_right hle _
    rw [rowAt_eq hmake hcolumn hlater predicates ws, rowAt_eq hmake hcolumn hip predicates ws',
      inForce_congr hreached hbetween]

end Rows

/-- Operations out of order, two of them at one offset, one under a predicate
that is known to be false. -/
def shuffled : List RegionOp :=
  [⟨16, none, .copyState 7⟩, ⟨8, none, .saveReg 3 12⟩, ⟨0, none, .spill 3 (-24)⟩,
    ⟨0, none, .labelState 7⟩, ⟨16, some 5, .spill 3 (-8)⟩, ⟨32, none, .stop⟩]

def shuffledRegion : Region :=
  ⟨none, 0x100, 0x200, 16, inOrder shuffled⟩

theorem rowAt_inForce_shuffled :
    make none 0x100 0x200 16 shuffled = .ok shuffledRegion ∧ 16 < Arch.x86_64.numRegs ∧
    make none 0x100 0x200 16 (inOrder shuffled) = .ok shuffledRegion ∧
    (∀ ws, (shuffledRegion.rowAt .x86_64 ws 0x110 ⟨32, 0⟩).1.map (·.current.ruleOf 3) =
      .ok (.cfaRelative (-24))) ∧
    (∀ ws, (shuffledRegion.rowAt .x86_64 ws 0x120 ⟨32, 0⟩).1 = .error .stopUnwind) ∧
    ∀ ws ws', (shuffledRegion.rowAt .x86_64 ws 0x11f ⟨32, 0⟩).1 =
      (shuffledRegion.rowAt .x86_64 ws' 0x110 ⟨32, 0⟩).1 := by
  have hmake : make none 0x100 0x200 16 shuffled = .ok shuffledRegion :=
    make_eq_ok_iff.mpr ⟨by decide, rfl⟩
  have hcolumn : 16 < Arch.x86_64.numRegs := by decide
  obtain ⟨hrow, hother, hbetween⟩ := rowAt_inForce hmake hcolumn ⟨32, 0⟩
  have hreached : inForce shuffled (Predicates.Allows ⟨32, 0⟩) (0x110 - 0x100) =
      [⟨0, none, .spill 3 (-24)⟩, ⟨0, none, .labelState 7⟩, ⟨8, none, .saveReg 3 12⟩,
        ⟨16, none, .copyState 7⟩] := by
    decide
  have hstopped : inForce shuffled (Predicates.Allows ⟨32, 0⟩) (0x120 - 0x100) =
      [⟨0, none, .spill 3 (-24)⟩, ⟨0, none, .labelState 7⟩, ⟨8, none, .saveReg 3 12⟩,
        ⟨16, none, .copyState 7⟩, ⟨32, none, .stop⟩] := by
    decide
  refine ⟨hmake, hcolumn, hother _ (filter_inOrder shuffled), fun ws => ?_, fun ws => ?_,
    fun ws ws' => hbetween 0x110 0x11f ws ws' (by decide) (by decide) (by decide) (by decide)⟩
  · rw [hrow 0x110 ws (by decide), hreached]
    rfl
  · rw [hrow 0x120 ws (by decide), hstopped]
    rfl

/-- An operation under a predicate that cannot be known is left out. -/
def beyondMask : List RegionOp :=
  [⟨0, some 64, .spill 3 (-8)⟩]

theorem not_rowAt_eq_unrefuted :
    ¬∀ (arch : Arch) (name : Option String) (start stop : UInt64) (returnAddress : Column)
      (ops : List RegionOp) (region : Region) (ip : UInt64) (predicates : Predicates)
      (ws : Workspace),
      make name start stop returnAddress ops = .ok region → returnAddress < arch.numRegs →
      region.contains ip = true →
      (region.rowAt arch ws ip predicates).1 =
        ((Trace.start arch).run arch (inForce ops predicates.Unrefuted (ip - start))).map
          (·.row arch returnAddress) := by
  intro h
  have hmake : make none 0x100 0x200 16 beyondMask =
      .ok ⟨none, 0x100, 0x200, 16, inOrder beyondMask⟩ :=
    make_eq_ok_iff.mpr ⟨by decide, rfl⟩
  have hunrefuted := h .x86_64 none 0x100 0x200 16 beyondMask _ 0x100 ⟨0, 0⟩ .empty hmake
    (by decide) (by decide)
  have hnone : inForce beyondMask (Predicates.Allows ⟨0, 0⟩) (0x100 - 0x100) = [] := by decide
  have hall : inForce beyondMask (Predicates.Unrefuted ⟨0, 0⟩) (0x100 - 0x100) = beyondMask := by
    decide
  rw [rowAt_eq hmake (by decide) (by decide), hnone, hall] at hunrefuted
  have hrules : (Except.ok .sameValue : Except UnwindError RegisterRule) =
      .ok (.cfaRelative (-8)) :=
    congrArg (Except.map fun row : Row => row.current.ruleOf 3) hunrefuted
  cases hrules

end Region
end StackWalk
