import Mathlib.Data.List.Perm.Basic
import Mathlib.Tactic
import StackWalk.Arch.Shipped
import StackWalk.Caller
import StackWalk.Proofs.Action
import StackWalk.Proofs.Word

/-!
# Rules as a simultaneous substitution

Applying rules succeeds with certain locations exactly if the location of each
column is the one that its own rule leads to in the frame as it was.  This says
nothing of an order, so the order does not matter, and registers that are saved
in one another are read as they were.  What a column of the caller reads as is
then a matter of its rule alone.
-/

namespace StackWalk

/-! ## What registers are read as -/

inductive ValueKind where
  | integer
  | image
  deriving DecidableEq, Repr

namespace ValueKind

abbrev Value : ValueKind → Type
  | integer => UInt64
  | image => FpImage

/-- The value of the column `reg` that has this location. -/
def read (target : Target) (reg : Column) (loc : Location) :
    (kind : ValueKind) → Except UnwindError kind.Value
  | integer => loc.read target reg
  | image => loc.readFp target reg

def inMemory (target : Target) (addr : UInt64) :
    (kind : ValueKind) → Except UnwindError kind.Value
  | integer => target.readWord addr
  | image => do
      let addrs ← target.arch.imageAddresses addr
      let words ← addrs.mapM target.readWord
      return target.arch.imageOfWords words

def ofWord (word : UInt64) : (kind : ValueKind) → kind.Value
  | integer => word
  | image => word.toBitVec.setWidth 128

variable {target : Target} {reg : Column}

@[simp] theorem read_lost (kind : ValueKind) :
    kind.read target reg .lost = .error (.badRegister (UInt64.ofNat reg)) := by
  cases kind <;> rfl

@[simp] theorem read_memory (kind : ValueKind) (addr : UInt64) (fp : Bool) :
    kind.read target reg (.memory addr fp) = kind.inMemory target addr := by
  cases kind <;> rfl

@[simp] theorem read_value (kind : ValueKind) (word : UInt64) :
    kind.read target reg (.value word) = .ok (kind.ofWord word) := by
  cases kind <;> rfl

@[simp] theorem read_withFp (kind : ValueKind) (loc : Location) (fp : Bool) :
    kind.read target reg (loc.withFp fp) = kind.read target reg loc := by
  cases kind <;> cases loc <;> rfl

end ValueKind

/-! ## What rules mean -/

/-- The word that the result of an expression stands for. -/
def Expression.Result.word (target : Target) (locs : Locations) :
    Expression.Result → Except UnwindError UInt64
  | .address word => .ok word
  | .value word => .ok word
  | .register source => (locs.of source).read target source

/-- The value of the column `reg` where the result of an expression says. -/
def Expression.Result.named (target : Target) (locs : Locations) (reg : Column)
    (kind : ValueKind) : Expression.Result → Except UnwindError kind.Value
  | .address addr => kind.inMemory target addr
  | .value word => .ok (kind.ofWord word)
  | .register source => kind.read target reg (locs.of source)

def CfaRule.valueIn (target : Target) (locs : Locations) : CfaRule → Except UnwindError UInt64
  | .registerOffset register offset => do
      let base ← (locs.of register).read target register
      return target.arch.wordOf (base.toNat + offset.toInt)
  | .expression addr => do
      let result ← Expression.evaluate target locs.of addr none
      result.word target locs

/-- The caller's value of the column `reg` by its rule, in a frame with these
locations. -/
def RegisterRule.valueIn (target : Target) (locs : Locations) (cfa : UInt64) (reg : Column)
    (kind : ValueKind) : RegisterRule → Except UnwindError kind.Value
  | .undefined => .error (.badRegister (UInt64.ofNat reg))
  | .sameValue => kind.read target reg (locs.of reg)
  | .cfaRelative offset =>
      kind.inMemory target (target.arch.wordOf (cfa.toNat + offset.toInt))
  | .valCfaRelative offset =>
      .ok (kind.ofWord (target.arch.wordOf (cfa.toNat + offset.toInt)))
  | .inRegister source => kind.read target reg (locs.of source)
  | .expression addr => do
      let result ← Expression.evaluate target locs.of addr (some cfa)
      result.named target locs reg kind
  | .valExpression addr => do
      let result ← Expression.evaluate target locs.of addr (some cfa)
      let word ← result.word target locs
      return kind.ofWord word

variable {target : Target} {locs caller : Locations} {cfa : UInt64} {reg : Column}

theorem resolveCfa_eq_valueIn (target : Target) (locs : Locations) (rule : CfaRule) :
    resolveCfa target locs rule = rule.valueIn target locs := by
  cases rule with
  | registerOffset register offset =>
      simp only [resolveCfa, CfaRule.valueIn, Arch.addOffset_and_wordMask]
  | expression addr =>
      simp only [resolveCfa, CfaRule.valueIn]
      cases Expression.evaluate target locs.of addr none with
      | error e => rfl
      | ok result => cases result <;> rfl

theorem read_of_resolveRule {rule : RegisterRule} {loc : Location}
    (h : resolveRule target locs cfa reg rule = .ok loc) (kind : ValueKind) :
    kind.read target reg loc = rule.valueIn target locs cfa reg kind := by
  cases rule with
  | undefined | sameValue | inRegister source =>
      cases h
      simp [RegisterRule.valueIn]
  | cfaRelative offset | valCfaRelative offset =>
      cases h
      simp [RegisterRule.valueIn, atCfa, Arch.addOffset_and_wordMask]
  | expression addr =>
      simp only [resolveRule] at h
      simp only [RegisterRule.valueIn]
      cases hresult : Expression.evaluate target locs.of addr (some cfa) with
      | error e => simp [hresult] at h
      | ok result =>
          cases result <;>
            simp only [hresult, ok_bind, pure_eq_ok, Except.ok.injEq] at h <;>
            subst h <;> simp [Expression.Result.named]
  | valExpression addr =>
      simp only [resolveRule] at h
      simp only [RegisterRule.valueIn]
      cases hresult : Expression.evaluate target locs.of addr (some cfa) with
      | error e => simp [hresult] at h
      | ok result =>
          cases result with
          | address word | value word =>
              simp only [hresult, ok_bind, pure_eq_ok, Except.ok.injEq] at h
              subst h
              simp [Expression.Result.word]
          | register source =>
              simp only [hresult, ok_bind, bind_eq_ok_iff, pure_eq_ok, Except.ok.injEq] at h
              obtain ⟨word, hword, rfl⟩ := h
              simp [Expression.Result.word, hword]

/-! ## Applying rules -/

/-- Where the rule of a column puts it. -/
def placed (target : Target) (locs : Locations) (cfa : UInt64) (reg : Column)
    (rule : RegisterRule) : Except UnwindError Location := do
  let loc ← resolveRule target locs cfa reg rule
  return loc.withFp (target.arch.isFp reg)

theorem read_of_placed {rule : RegisterRule} {loc : Location}
    (h : placed target locs cfa reg rule = .ok loc) (kind : ValueKind) :
    kind.read target reg loc = rule.valueIn target locs cfa reg kind := by
  obtain ⟨resolved, hresolved, hloc⟩ := bind_eq_ok_iff.mp h
  cases hloc
  rw [ValueKind.read_withFp, read_of_resolveRule hresolved]

namespace Locations

theorem ext_of {first second : Locations} (h : ∀ reg, first.of reg = second.of reg) :
    first = second := by
  apply Vector.ext
  intro reg hreg
  simpa [Locations.of, hreg] using h reg

end Locations

/-- The rules have columns that are kept, and one rule for each at most. -/
structure Separate (rules : List (Column × RegisterRule)) : Prop where
  kept : ∀ entry ∈ rules, entry.1 < maxColumns
  distinct : (rules.map Prod.fst).Nodup

theorem Separate.perm {rules order : List (Column × RegisterRule)} (h : Separate rules)
    (hperm : order.Perm rules) : Separate order where
  kept entry hentry := h.kept entry (hperm.mem_iff.mp hentry)
  distinct := (hperm.map Prod.fst).nodup_iff.mpr h.distinct

/-- Each column of `caller` is where its rule puts it, and the others are as
they were before. -/
def Substitutes (target : Target) (locs : Locations) (cfa : UInt64)
    (rules : List (Column × RegisterRule)) (before caller : Locations) : Prop :=
  ∀ reg, (∀ rule, (reg, rule) ∈ rules → placed target locs cfa reg rule = .ok (caller.of reg)) ∧
    ((∀ rule, (reg, rule) ∉ rules) → caller.of reg = before.of reg)

theorem resolveRules_cons (rule : RegisterRule) (rest : List (Column × RegisterRule))
    (before : Locations) :
    resolveRules target locs cfa ((reg, rule) :: rest) before =
      placed target locs cfa reg rule >>= fun loc =>
        resolveRules target locs cfa rest (before.put reg loc) := by
  unfold placed
  rw [resolveRules]
  cases resolveRule target locs cfa reg rule <;> rfl

theorem resolveRules_eq_ok_iff {rules : List (Column × RegisterRule)} (h : Separate rules)
    {before : Locations} :
    resolveRules target locs cfa rules before = .ok caller ↔
      Substitutes target locs cfa rules before caller := by
  induction rules generalizing before with
  | nil =>
      constructor
      · intro hcaller reg
        cases hcaller
        simp
      · intro hcaller
        exact congrArg Except.ok (Locations.ext_of fun reg => ((hcaller reg).2 (by simp)).symm)
  | cons entry rest ih =>
      obtain ⟨first, rule⟩ := entry
      have hkept : first < maxColumns := h.kept _ List.mem_cons_self
      obtain ⟨hfresh, hdistinct⟩ := List.nodup_cons.mp h.distinct
      have hnone (other : RegisterRule) : (first, other) ∉ rest :=
        fun hmem => hfresh (List.mem_map.mpr ⟨_, hmem, rfl⟩)
      have hrest : Separate rest :=
        ⟨fun entry hmem => h.kept entry (List.mem_cons_of_mem _ hmem), hdistinct⟩
      simp only [resolveRules_cons, bind_eq_ok_iff, ih hrest]
      constructor
      · rintro ⟨loc, hloc, hcaller⟩ reg
        obtain ⟨hruled, hunruled⟩ := hcaller reg
        by_cases hreg : reg = first
        · subst hreg
          have hput := hunruled hnone
          rw [Locations.of_put_self hkept] at hput
          constructor
          · intro other hmem
            obtain hsame | hmem := List.mem_cons.mp hmem
            · obtain ⟨-, rfl⟩ := Prod.mk.inj hsame
              rw [hput, hloc]
            · exact absurd hmem (hnone other)
          · intro habsent
            exact absurd List.mem_cons_self (habsent rule)
        · rw [Locations.of_put_ne (Ne.symm hreg)] at hunruled
          simpa [hreg] using And.intro hruled hunruled
      · intro hcaller
        refine ⟨caller.of first, (hcaller first).1 rule List.mem_cons_self, ?_⟩
        intro reg
        obtain ⟨hruled, hunruled⟩ := hcaller reg
        by_cases hreg : reg = first
        · subst hreg
          simp [hnone, hkept]
        · rw [Locations.of_put_ne (Ne.symm hreg)]
          simpa [hreg] using And.intro hruled hunruled

theorem Substitutes.congr {rules : List (Column × RegisterRule)} {before other : Locations}
    (h : ∀ reg, (∀ rule, (reg, rule) ∉ rules) → before.of reg = other.of reg) :
    Substitutes target locs cfa rules before caller ↔
      Substitutes target locs cfa rules other caller := by
  apply forall_congr'
  intro reg
  apply and_congr_right
  intro _
  apply forall_congr'
  intro habsent
  rw [h reg habsent]

/-- A column without a rule may as well be moved afterwards. -/
theorem Substitutes.put_iff {rules : List (Column × RegisterRule)} {before : Locations}
    {loc : Location} (hkept : reg < maxColumns) (habsent : ∀ rule, (reg, rule) ∉ rules) :
    (∃ first, Substitutes target locs cfa rules before first ∧ first.put reg loc = caller) ↔
      Substitutes target locs cfa rules (before.put reg loc) caller := by
  constructor
  · rintro ⟨first, hfirst, rfl⟩ other
    by_cases hother : reg = other
    · subst hother
      simp [hkept, habsent]
    · simpa [hother] using hfirst other
  · intro hcaller
    refine ⟨caller.put reg (before.of reg), ?_, ?_⟩
    · intro other
      by_cases hother : reg = other
      · subst hother
        simp [hkept, habsent]
      · simpa [hother] using hcaller other
    · have hloc := (hcaller reg).2 habsent
      apply Locations.ext_of
      intro other
      by_cases hother : reg = other
      · subst hother
        simpa [hkept] using hloc.symm
      · simp [hother]

/-- The stack pointer is the CFA before any rule has a say. -/
theorem applyRules_eq_ok_iff {cfaRule : CfaRule} {rules : List (Column × RegisterRule)}
    (hsp : target.arch.sp < maxColumns) (h : Separate rules) :
    applyRules target locs cfaRule rules = .ok (cfa, caller) ↔
      cfaRule.valueIn target locs = .ok cfa ∧
        Substitutes target locs cfa rules (locs.put target.arch.sp (.value cfa)) caller := by
  unfold applyRules
  simp only [bind_eq_ok_iff, resolveCfa_eq_valueIn, resolveRules_eq_ok_iff h]
  by_cases hruled : rules.any (·.1 == target.arch.sp) = true
  · have hagree : ∀ reg, (∀ rule, (reg, rule) ∉ rules) →
        locs.of reg = (locs.put target.arch.sp (.value cfa)).of reg := by
      intro reg habsent
      obtain ⟨⟨sp, rule⟩, hmem, hreg⟩ := List.any_eq_true.mp hruled
      obtain rfl := eq_of_beq hreg
      have hne : target.arch.sp ≠ reg := fun hsame => habsent rule (hsame ▸ hmem)
      rw [Locations.of_put_ne hne]
    simp [hruled, Substitutes.congr hagree]
  · have habsent : ∀ rule, (target.arch.sp, rule) ∉ rules := by
      simpa using hruled
    simp [hruled, ← Substitutes.put_iff hsp habsent]

/-- Rules are a simultaneous substitution. -/
theorem applyRules_substitution {cfaRule : CfaRule} {rules : List (Column × RegisterRule)}
    (hsp : target.arch.sp < maxColumns) (hrules : Separate rules)
    (h : applyRules target locs cfaRule rules = .ok (cfa, caller)) :
    cfaRule.valueIn target locs = .ok cfa ∧
    (∀ order, order.Perm rules →
      applyRules target locs cfaRule order = .ok (cfa, caller)) ∧
    (∀ otherCfa others otherCaller, Separate others →
      applyRules target locs otherCfa others = .ok (cfa, otherCaller) →
        ∀ reg, (∀ rule, (reg, rule) ∈ others ↔ (reg, rule) ∈ rules) →
          otherCaller.of reg = caller.of reg) ∧
    ∀ reg kind,
      (∀ rule, (reg, rule) ∈ rules →
        kind.read target reg (caller.of reg) = rule.valueIn target locs cfa reg kind) ∧
      ((∀ rule, (reg, rule) ∉ rules) →
        kind.read target reg (caller.of reg) =
          if reg = target.arch.sp then .ok (kind.ofWord cfa)
          else kind.read target reg (locs.of reg)) := by
  obtain ⟨hcfa, hcaller⟩ := (applyRules_eq_ok_iff hsp hrules).mp h
  refine ⟨hcfa, ?_, ?_, ?_⟩
  · intro order hperm
    refine (applyRules_eq_ok_iff hsp (hrules.perm hperm)).mpr ⟨hcfa, fun reg => ?_⟩
    simpa only [hperm.mem_iff] using hcaller reg
  · intro otherCfa others otherCaller hothers hother reg hsame
    obtain ⟨-, hsubstitutes⟩ := (applyRules_eq_ok_iff hsp hothers).mp hother
    obtain ⟨hruled, hunruled⟩ := hsubstitutes reg
    simp only [hsame] at hruled hunruled
    by_cases hrule : ∃ rule, (reg, rule) ∈ rules
    · obtain ⟨rule, hmem⟩ := hrule
      exact Except.ok.inj ((hruled rule hmem).symm.trans ((hcaller reg).1 rule hmem))
    · have habsent := not_exists.mp hrule
      rw [hunruled habsent, (hcaller reg).2 habsent]
  · intro reg kind
    obtain ⟨hruled, hunruled⟩ := hcaller reg
    constructor
    · intro rule hmem
      exact read_of_placed (hruled rule hmem) kind
    · intro habsent
      rw [hunruled habsent]
      by_cases hreg : reg = target.arch.sp
      · subst hreg
        simp [hsp]
      · rw [Locations.of_put_ne (Ne.symm hreg), if_neg hreg]

/-- Column `n` holds `0x1000 * n`, and memory holds addresses of itself. -/
def numberedTarget : Target where
  arch := .x86_64
  loadWord addr := .ok addr
  loadReg reg := .ok (UInt64.ofNat (0x1000 * reg))
  loadFpReg reg := .error (.badRegister (UInt64.ofNat reg))

/-- Columns 3 and 12 are saved in one another. -/
def swappingRules : List (Column × RegisterRule) :=
  [(3, .inRegister 12), (12, .inRegister 3), (16, .cfaRelative (-8))]

theorem applyRules_swappingRules :
    numberedTarget.arch.sp < maxColumns ∧ Separate swappingRules ∧
      ∃ caller,
        applyRules numberedTarget (.live .x86_64) (.registerOffset 7 16) swappingRules =
          .ok (0x7010, caller) ∧
        applyRules numberedTarget (.live .x86_64) (.registerOffset 7 16) swappingRules.reverse =
          .ok (0x7010, caller) ∧
        ValueKind.integer.read numberedTarget 3 (caller.of 3) = .ok 0xc000 ∧
        ValueKind.integer.read numberedTarget 12 (caller.of 12) = .ok 0x3000 ∧
        ValueKind.integer.read numberedTarget 16 (caller.of 16) = .ok 0x7008 ∧
        ValueKind.image.read numberedTarget 7 (caller.of 7) = .ok 0x7010 := by
  have hsp : numberedTarget.arch.sp < maxColumns := by decide
  have hrules : Separate swappingRules := ⟨by decide, by decide⟩
  have happlied : applyRules numberedTarget (.live .x86_64) (.registerOffset 7 16)
      swappingRules = .ok (0x7010, _) := rfl
  obtain ⟨-, horder, -, hread⟩ := applyRules_substitution hsp hrules happlied
  refine ⟨hsp, hrules, _, happlied, horder _ (List.reverse_perm _), ?_, ?_, ?_, ?_⟩
  · exact (hread 3 .integer).1 (.inRegister 12) (by decide)
  · exact (hread 12 .integer).1 (.inRegister 3) (by decide)
  · exact (hread 16 .integer).1 (.cfaRelative (-8)) (by decide)
  · exact (hread 7 .image).2 (by simp [swappingRules])

end StackWalk
