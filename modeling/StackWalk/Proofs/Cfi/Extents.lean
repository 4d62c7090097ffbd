import Mathlib.Tactic
import StackWalk.Cfi.Instruction
import StackWalk.Proofs.Cfi.MemoryOnly
import StackWalk.Proofs.Echo

/-!
# The bytes of an instruction

A program is read up to the end of its range, and every instruction of it
begins inside.  All but the last end inside too.  Only of an expression it is
made sure that it ends there; every other operand is read wherever it ends,
and the last instruction may take bytes that stand behind the range.
-/

namespace StackWalk.Cfi

variable {first second target : Target} {ctx : ProgramContext} {pos : UInt64}

/-! ## One instruction -/

theorem readBlock_echoes (first second : Target) (ends stop pos : UInt64) :
    EchoesAt first second stop pos (readBlock first ends) (readBlock second ends) := by
  refine .get_bind (.bind (Target.readULeb128_echoes first second stop pos)
    fun length body _ => .get_bind (.lift_bind fun next hnext => ?_))
  rintro - _ _ ⟨⟩
  have hsum := (blockEnd_eq_ok hnext).1
  refine ⟨?_, fun _ => rfl⟩
  rw [UInt64.le_iff_toNat_le]
  omega

theorem withOperand_echoes {α : Type} {operand echo : Scan α} {build : α → Instruction}
    {stop : UInt64} (h : EchoesAt first second stop pos operand echo) :
    EchoesAt first second stop pos (withOperand operand build) (withOperand echo build) :=
  h.map build

theorem withOperands_echoes {α β : Type} {one echo : Scan α} {other echoOther : Scan β}
    {build : α → β → Instruction} {stop : UInt64}
    (hone : ∀ pos, EchoesAt first second stop pos one echo)
    (hother : ∀ pos, EchoesAt first second stop pos other echoOther) :
    EchoesAt first second stop pos (withOperands one other build)
      (withOperands echo echoOther build) :=
  .bind (hone pos) fun a next _ => .bind (hother next) fun b _ _ => .pure (build a b)

theorem decodeExtended_echoes (hkind : first.SameKind second) {opcode : UInt8}
    (hbehind : opcode = 0x01 →
      first.AgreeBehind second ctx.encoding ctx.bases ctx.stop pos) :
    EchoesAt first second ctx.stop pos (decodeExtended first ctx opcode)
      (decodeExtended second ctx opcode) := by
  have uleb := Target.readULeb128_echoes first second ctx.stop
  have sleb := Target.readSLeb128_echoes first second ctx.stop
  have block := readBlock_echoes first second ctx.stop ctx.stop
  unfold decodeExtended
  split
  case h_2 => exact withOperand_echoes (Target.readPointer_echoes hkind.sameArch (hbehind rfl))
  case h_3 => exact withOperand_echoes (Target.readU8_echoes first second ctx.stop pos)
  case h_4 => exact withOperand_echoes (Target.readUInt_echoes hkind.sameArch (by decide) ctx.stop pos)
  case h_5 => exact withOperand_echoes (Target.readUInt_echoes hkind.sameArch (by decide) ctx.stop pos)
  case h_27 => exact .throw _ _
  all_goals
    first
      | exact .pure _
      | exact withOperand_echoes (uleb pos)
      | exact withOperand_echoes (sleb pos)
      | exact withOperand_echoes (block pos)
      | exact withOperands_echoes (by assumption) (by assumption)

theorem decodeOperands_echoes (hkind : first.SameKind second) {opcode : UInt8}
    (hbehind : opcode = 0x01 →
      first.AgreeBehind second ctx.encoding ctx.bases ctx.stop pos) :
    EchoesAt first second ctx.stop pos (decodeOperands first ctx opcode)
      (decodeOperands second ctx opcode) := by
  unfold decodeOperands
  split
  · exact .pure _
  · exact withOperand_echoes (Target.readULeb128_echoes first second ctx.stop pos)
  · exact .pure _
  · exact decodeExtended_echoes hkind hbehind

/-- Where an instruction sets the location, what its pointer is found behind is
the same in both memories. -/
def LocationAgrees (first second : Target) (ctx : ProgramContext) (pos : UInt64) : Prop :=
  first.readByte pos = .ok 0x01 →
    first.AgreeBehind second ctx.encoding ctx.bases ctx.stop (pos + 1)

theorem decode_echoes (hkind : first.SameKind second)
    (hbehind : LocationAgrees first second ctx pos) :
    EchoesAt first second ctx.stop pos (decode first ctx) (decode second ctx) := by
  refine .bind (Target.readU8_echoes first second ctx.stop pos) fun opcode next hopcode =>
    decodeOperands_echoes hkind ?_
  rintro rfl
  obtain ⟨hnext, hbyte⟩ := Target.readU8_eq_ok hopcode
  have hnext : next = pos + 1 := by
    apply UInt64.toNat_inj.mp
    rw [hnext, UInt64.toNat_add]
    have hlt := next.toNat_lt
    exact (Nat.mod_eq_of_lt (show pos.toNat + 1 < 2 ^ 64 by omega)).symm
  rw [hnext]
  exact hbehind hbyte

/-- An expression stands among the operands. -/
def Instruction.hasBlock : Instruction → Bool
  | .defCfaExpression _ | .expression _ _ | .valExpression _ _ => true
  | _ => false

/-- What is read ends inside the program if there is an expression in it. -/
def BlocksInside (ends : UInt64) (scan : Scan Instruction) : Prop :=
  ∀ pos, Action.Ensures scan pos fun instruction next =>
    instruction.hasBlock = true → next ≤ ends

namespace BlocksInside

variable {α β : Type} {ends : UInt64}

theorem of_plain {scan : Scan α} {f : α → Scan Instruction} (h : ∀ a, BlocksInside ends (f a)) :
    BlocksInside ends (scan >>= f) := by
  intro pos
  have hscan : Action.Ensures scan pos fun _ _ => True := fun _ _ _ => trivial
  exact .bind hscan fun a next _ => h a next

theorem pure {instruction : Instruction} (h : instruction.hasBlock = false) :
    BlocksInside ends (Pure.pure instruction) := by
  intro pos
  refine .pure fun hblock => ?_
  rw [h] at hblock
  cases hblock

theorem operand {scan : Scan α} {build : α → Instruction} (h : ∀ a, (build a).hasBlock = false) :
    BlocksInside ends (withOperand scan build) := by
  unfold withOperand
  rw [map_eq_pure_bind]
  exact of_plain fun a => pure (h a)

theorem operands {one : Scan α} {other : Scan β} {build : α → β → Instruction}
    (h : ∀ a b, (build a b).hasBlock = false) : BlocksInside ends (withOperands one other build) :=
  of_plain fun a => of_plain fun b => pure (h a b)

theorem block (target : Target) (build : UInt64 → Instruction) :
    BlocksInside ends (withOperand (readBlock target ends) build) := by
  intro pos
  unfold withOperand
  rw [map_eq_pure_bind]
  have hinside : Action.Ensures (readBlock target ends) pos fun _ next => next ≤ ends := by
    refine .bind .get ?_
    rintro _ _ ⟨rfl, rfl⟩
    refine .bind (fun _ _ _ => trivial) fun length body _ => .bind .get ?_
    rintro _ _ ⟨rfl, rfl⟩
    refine .bind .ofExcept ?_
    rintro next _ ⟨hnext, rfl⟩
    refine .bind .set ?_
    rintro _ _ rfl
    exact .pure (blockEnd_eq_ok hnext).2
  exact .bind hinside fun _ _ hnext => .pure fun _ => hnext

theorem blockBehind (target : Target) {one : Scan α} (build : α → UInt64 → Instruction) :
    BlocksInside ends (withOperands one (readBlock target ends) build) :=
  of_plain fun a => by
    have h := @block ends target (build a)
    unfold withOperand at h
    rwa [map_eq_pure_bind] at h

end BlocksInside

theorem decode_blocksInside (target : Target) (ctx : ProgramContext) :
    BlocksInside ctx.stop (decode target ctx) := by
  refine .of_plain fun opcode => ?_
  unfold decodeOperands
  split
  · exact .pure rfl
  · exact .operand fun _ => rfl
  · exact .pure rfl
  · unfold decodeExtended
    split
    case h_16 => exact .block target _
    case h_17 => exact .blockBehind target _
    case h_23 => exact .blockBehind target _
    case h_27 => exact fun _ => .throw
    all_goals
      first
        | exact .pure rfl
        | exact .operand fun _ => rfl
        | exact .operands fun _ _ => rfl

/-! ## Programs -/

/-- An item of a program, from where it begins to where its reading ends. -/
structure Extent where
  start : UInt64
  item : Except UnwindError Instruction
  stop : UInt64
  deriving DecidableEq

/-- The items that `listing` gives, with the bytes they take. -/
def extents (target : Target) (ctx : ProgramContext) (pos : UInt64) : List Extent :=
  if pos < ctx.stop then
    match _hdecode : decode target ctx pos with
    | .ok instruction next => ⟨pos, .ok instruction, next⟩ :: extents target ctx next
    | .error e next => [⟨pos, .error e, next⟩]
  else
    []
termination_by UInt64.size - pos.toNat
decreasing_by
  have := decode_advances _hdecode
  have := next.toNat_lt_size
  omega

theorem extents_eq (target : Target) (ctx : ProgramContext) (pos : UInt64) :
    extents target ctx pos =
      if pos < ctx.stop then
        match decode target ctx pos with
        | .ok instruction next => ⟨pos, .ok instruction, next⟩ :: extents target ctx next
        | .error e next => [⟨pos, .error e, next⟩]
      else
        [] := by
  rw [extents]
  split
  · cases hdecode : decode target ctx pos <;> rfl
  · rfl

theorem map_item_extents (target : Target) (ctx : ProgramContext) (pos : UInt64) :
    (extents target ctx pos).map Extent.item = listing target ctx pos := by
  fun_induction listing target ctx pos with
  | case1 pos hinside instruction next hdecode ih =>
      rw [extents_eq, if_pos hinside, hdecode]
      simp only [List.map_cons, ih]
  | case2 pos hinside e next hdecode =>
      rw [extents_eq, if_pos hinside, hdecode]
      rfl
  | case3 pos hend =>
      rw [extents_eq, if_neg hend]
      rfl

theorem extents_eq_nil_iff : extents target ctx pos = [] ↔ ¬pos < ctx.stop := by
  rw [extents_eq]
  split
  · cases decode target ctx pos <;> simp [*]
  · simp [*]

theorem begins_inside {extent : Extent} (hmem : extent ∈ extents target ctx pos) :
    pos ≤ extent.start ∧ extent.start < ctx.stop := by
  fun_induction extents target ctx pos with
  | case1 pos hinside instruction next hdecode ih =>
      have hnext : pos < next := UInt64.lt_iff_toNat_lt.mpr (decode_advances hdecode)
      rcases List.mem_cons.mp hmem with rfl | hmem
      · exact ⟨UInt64.le_refl _, hinside⟩
      · exact ⟨UInt64.le_trans (UInt64.le_of_lt hnext) (ih hmem).1, (ih hmem).2⟩
  | case2 pos hinside e next hdecode =>
      obtain rfl := List.mem_singleton.mp hmem
      exact ⟨UInt64.le_refl _, hinside⟩
  | case3 pos hend => cases hmem

theorem decode_of_mem {extent : Extent} (hmem : extent ∈ extents target ctx pos)
    {instruction : Instruction} (hitem : extent.item = .ok instruction) :
    decode target ctx extent.start = .ok instruction extent.stop := by
  fun_induction extents target ctx pos with
  | case1 pos hinside other next hdecode ih =>
      rcases List.mem_cons.mp hmem with rfl | hmem
      · cases hitem
        exact hdecode
      · exact ih hmem
  | case2 pos hinside e next hdecode =>
      obtain rfl := List.mem_singleton.mp hmem
      cases hitem
  | case3 pos hend => cases hmem

/-- What another item follows is an instruction that ends inside. -/
theorem ends_inside {extent : Extent} (hmem : extent ∈ (extents target ctx pos).dropLast) :
    (∃ instruction, extent.item = .ok instruction) ∧ extent.stop < ctx.stop := by
  fun_induction extents target ctx pos with
  | case1 pos hinside instruction next hdecode ih =>
      by_cases hlast : next < ctx.stop
      · rw [List.dropLast_cons_of_ne_nil (mt extents_eq_nil_iff.mp (not_not.mpr hlast))] at hmem
        rcases List.mem_cons.mp hmem with rfl | hmem
        · exact ⟨⟨instruction, rfl⟩, hlast⟩
        · exact ih hmem
      · rw [extents_eq_nil_iff.mpr hlast] at hmem
        cases hmem
  | case2 pos hinside e next hdecode => cases hmem
  | case3 pos hend => cases hmem

/-! ## Two memories -/

/-- Where no instruction ends before the end of the program, there is one item
and no more. -/
theorem length_extents_of_last (hinside : pos < ctx.stop)
    (hlast : ∀ instruction next, decode target ctx pos = .ok instruction next →
      ctx.stop ≤ next) : ∃ extent, extents target ctx pos = [extent] := by
  rw [extents_eq, if_pos hinside]
  cases hdecode : decode target ctx pos with
  | error e next => exact ⟨_, rfl⟩
  | ok instruction next =>
      have hend : ¬next < ctx.stop := UInt64.not_lt.mpr (hlast instruction next hdecode)
      simp only [extents_eq_nil_iff.mpr hend]
      exact ⟨_, rfl⟩

/-- The two listings have as many items and differ in the last at most, and
not at all if the first is all instructions that end inside. -/
def SameButLast (ctx : ProgramContext) (first second : List Extent) : Prop :=
  first.length = second.length ∧ first.dropLast = second.dropLast ∧
    ((∀ extent ∈ first, (∃ instruction, extent.item = .ok instruction) ∧
      extent.stop ≤ ctx.stop) → first = second)

namespace SameButLast

variable {extent other : Extent} {rest others : List Extent}

theorem cons (h : SameButLast ctx rest others) :
    SameButLast ctx (extent :: rest) (extent :: others) := by
  obtain ⟨hlength, hinit, hsame⟩ := h
  refine ⟨congrArg (· + 1) hlength, ?_, fun hinside => ?_⟩
  · cases rest with
    | nil =>
        obtain rfl := List.length_eq_zero_iff.mp hlength.symm
        rfl
    | cons _ _ =>
        have hothers : others ≠ [] := by
          rintro rfl
          cases hlength
        rw [List.dropLast_cons_of_ne_nil (List.cons_ne_nil _ _),
          List.dropLast_cons_of_ne_nil hothers, hinit]
  · rw [hsame fun extent hmem => hinside extent (List.mem_cons_of_mem _ hmem)]

theorem last (h : ∀ instruction, extent.item = .ok instruction → ¬extent.stop ≤ ctx.stop) :
    SameButLast ctx [extent] [other] := by
  refine ⟨rfl, rfl, fun hinside => ?_⟩
  obtain ⟨⟨instruction, hitem⟩, hend⟩ := hinside extent List.mem_cons_self
  exact absurd hend (h instruction hitem)

end SameButLast

theorem LocationAgrees.symm (hkind : first.SameKind second)
    (hagree : first.AgreeOn second pos ctx.stop) (hinside : pos < ctx.stop)
    (h : LocationAgrees first second ctx pos) : LocationAgrees second first ctx pos := by
  intro hopcode
  have hnext : pos ≤ pos + 1 := by
    have hlt := ctx.stop.toNat_lt
    rw [UInt64.lt_iff_toNat_lt] at hinside
    rw [UInt64.le_iff_toNat_le, UInt64.toNat_add]
    have hsum : pos.toNat + (1 : UInt64).toNat = pos.toNat + 1 := rfl
    rw [hsum, Nat.mod_eq_of_lt (by omega)]
    omega
  exact .symm hkind.sameArch (hagree.mono hnext)
    (h ((hagree pos (UInt64.le_refl _) hinside).trans hopcode))

/-- The last instruction of the one memory is the last of the other. -/
theorem last_of_last (hkind : first.SameKind second)
    (hagree : first.AgreeOn second pos ctx.stop) (hinside : pos < ctx.stop)
    (hbehind : LocationAgrees first second ctx pos)
    (hlast : ∀ instruction next, decode first ctx pos = .ok instruction next → ctx.stop < next) :
    ∃ extent, extents second ctx pos = [extent] := by
  refine length_extents_of_last hinside fun instruction next hdecode => ?_
  by_contra hbefore
  rw [UInt64.not_le] at hbefore
  have hecho := (decode_echoes hkind.symm (hbehind.symm hkind hagree hinside) hagree.symm
    instruction next hdecode).2 (UInt64.le_of_lt hbefore)
  exact UInt64.lt_asymm hbefore (hlast instruction next hecho)

/-- Memories that agree on the range of a program, and on what its pointers are
found behind, are read as the same instructions up to the last, which may take
bytes from outside. -/
theorem extents_sameButLast (hkind : first.SameKind second)
    (hagree : first.AgreeOn second pos ctx.stop)
    (hbehind : ∀ extent ∈ extents first ctx pos, LocationAgrees first second ctx extent.start) :
    SameButLast ctx (extents first ctx pos) (extents second ctx pos) := by
  fun_induction extents first ctx pos with
  | case1 pos hinside instruction next hdecode ih =>
      have hhere : LocationAgrees first second ctx pos :=
        hbehind ⟨pos, .ok instruction, next⟩ List.mem_cons_self
      obtain ⟨hle, hecho⟩ := decode_echoes hkind hhere hagree instruction next hdecode
      by_cases hend : next ≤ ctx.stop
      · have hrest := ih (hagree.mono hle) fun extent hmem =>
          hbehind extent (List.mem_cons_of_mem _ hmem)
        rw [extents_eq second, if_pos hinside, hecho hend]
        exact hrest.cons
      -- What goes past the end is the last of the first memory, and so of the second.
      · have hpast : ctx.stop < next := UInt64.not_le.mp hend
        have hlast : ∀ other past, decode first ctx pos = .ok other past → ctx.stop < past := by
          rw [hdecode]
          rintro _ _ ⟨⟩
          exact hpast
        obtain ⟨other, hother⟩ := last_of_last hkind hagree hinside hhere hlast
        rw [hother, extents_eq_nil_iff.mpr (UInt64.lt_asymm hpast)]
        exact .last fun _ _ => hend
  | case2 pos hinside e next hdecode =>
      have hhere : LocationAgrees first second ctx pos :=
        hbehind ⟨pos, .error e, next⟩ List.mem_cons_self
      have hlast : ∀ other past, decode first ctx pos = .ok other past → ctx.stop < past := by
        rw [hdecode]
        rintro _ _ ⟨⟩
      obtain ⟨other, hother⟩ := last_of_last hkind hagree hinside hhere hlast
      rw [hother]
      exact .last fun _ hitem => by cases hitem
  | case3 pos hend =>
      rw [extents_eq_nil_iff.mpr hend]
      exact ⟨rfl, rfl, fun _ => rfl⟩

end StackWalk.Cfi
