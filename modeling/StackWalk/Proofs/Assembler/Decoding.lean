import StackWalk.Assembler.Program
import StackWalk.Proofs.Cfi.MemoryOnly
import StackWalk.Proofs.Image.WordImage

/-!
# Programs are decoded as they were assembled

Each call of the assembler is read as one instruction, and reading goes on
behind its last byte.  So a program of such calls is listed call by call,
wherever its bytes stand.
-/

namespace StackWalk.Assembler

open Cfi

/-- The instruction that a call stands for.  A bare opcode may lack its operands,
bytes as they are can be anything, and a delta of 64 or more spoils the opcode
that it is packed into. -/
def Call.instruction? : Call → Option Instruction
  | .op _ => none
  | .advance delta => if delta < 0x40 then some (.advanceLoc .packed delta.toUInt64) else none
  | .defCfa reg amount => some (.defCfa reg amount)
  | .defCfaRegister reg => some (.defCfaRegister reg)
  | .defCfaOffset amount => some (.defCfaOffset amount)
  | .offset reg factored =>
      some (.offset (if reg < 0x40 then .packed else .extended) reg.toUInt64 factored)
  | .offsetExtended reg factored => some (.offset .extended reg factored)
  | .register reg source => some (.register reg source)
  | .undefined reg => some (.undefined reg)
  | .bytes _ => none

/-- The bytes of a program stand in memory, below the top of the address space. -/
structure Stands (target : Target) (base : UInt64) (calls : List Call) : Prop where
  holds : target.Holds base (assemble calls)
  room : base.toNat + (assemble calls).length < 2 ^ 64

/-- What the bytes of a program, and no others, are decoded as. -/
def decoded (target : Target) (ctx : ProgramContext) (base : UInt64) (calls : List Call) :
    List (Except UnwindError Instruction) :=
  listing target { ctx with stop := base + UInt64.ofNat (assemble calls).length } base

variable {target : Target} {ctx : ProgramContext} {pos base : UInt64} {calls : List Call}
  {instructions : List Instruction}

/-! ## One call -/

theorem opcode_of_packed {operand : UInt8} (h : operand < 0x40) :
    (0x40 ||| operand) >>> 6 = 1 ∧ (0x40 ||| operand) &&& 0x3f = operand ∧
      (0x80 ||| operand) >>> 6 = 2 ∧ (0x80 ||| operand) &&& 0x3f = operand := by
  have hall : ∀ n < 64, (0x40 ||| UInt8.ofNat n) >>> 6 = 1 ∧
      (0x40 ||| UInt8.ofNat n) &&& 0x3f = UInt8.ofNat n ∧
      (0x80 ||| UInt8.ofNat n) >>> 6 = 2 ∧
      (0x80 ||| UInt8.ofNat n) &&& 0x3f = UInt8.ofNat n := by
    decide
  have hlt := UInt8.lt_iff_toNat_lt.mp h
  simpa using hall operand.toNat hlt

theorem reads_withOperand {α : Type} {operand : Scan α} {bytes : List UInt8} {a : α}
    (build : α → Instruction) (h : target.Reads pos operand bytes a) :
    target.Reads pos (withOperand operand build) bytes (build a) :=
  h.bind_pure rfl

theorem reads_withOperands {α β : Type} {first : Scan α} {second : Scan β}
    {bytes more : List UInt8} {a : α} {b : β} (build : α → β → Instruction)
    (hfirst : target.Reads pos first bytes a)
    (hsecond : target.Reads (pos + UInt64.ofNat bytes.length) second more b) :
    target.Reads pos (withOperands first second build) (bytes ++ more) (build a b) :=
  hfirst.bind (hsecond.bind_pure rfl)

/-- An opcode is read, and then what it asks for. -/
theorem reads_decode {opcode : UInt8} {operands : List UInt8} {instruction : Instruction}
    (h : target.Reads (pos + UInt64.ofNat [opcode].length) (decodeOperands target ctx opcode)
      operands instruction) :
    target.Reads pos (decode target ctx) (opcode :: operands) instruction :=
  (Target.reads_readU8 opcode).bind h

theorem reads_decode_packedAdvance {delta : UInt8} (h : delta < 0x40) :
    target.Reads pos (decode target ctx) [0x40 ||| delta]
      (.advanceLoc .packed delta.toUInt64) := by
  obtain ⟨hkind, hlow, -, -⟩ := opcode_of_packed h
  refine reads_decode ?_
  simp only [decodeOperands, hkind, hlow]
  exact .pure _

theorem reads_decode_packedOffset {reg : UInt8} (h : reg < 0x40) (factored : UInt64) :
    target.Reads pos (decode target ctx) ((0x80 ||| reg) :: Leb128.encodeUnsigned factored)
      (.offset .packed reg.toUInt64 factored) := by
  obtain ⟨-, -, hkind, hlow⟩ := opcode_of_packed h
  refine reads_decode ?_
  simp only [decodeOperands, hkind, hlow]
  exact reads_withOperand _ (Target.reads_uleb128 factored)

/-- Where the bytes of a call stand, its instruction is decoded. -/
theorem Call.reads_decode_encode {call : Call} {instruction : Instruction}
    (h : call.instruction? = some instruction) :
    target.Reads pos (decode target ctx) call.encode instruction := by
  have one (pos : UInt64) (a : UInt64) (build : UInt64 → Instruction) :
      target.Reads pos (withOperand target.readULeb128 build) (Leb128.encodeUnsigned a)
        (build a) :=
    reads_withOperand build (Target.reads_uleb128 a)
  have two (pos : UInt64) (a b : UInt64) (build : UInt64 → UInt64 → Instruction) :
      target.Reads pos (withOperands target.readULeb128 target.readULeb128 build)
        (Leb128.encodeUnsigned a ++ Leb128.encodeUnsigned b) (build a b) :=
    reads_withOperands build (Target.reads_uleb128 a) (Target.reads_uleb128 b)
  cases call with
  | op opcode => cases h
  | bytes raw => cases h
  | advance delta =>
      obtain ⟨hdelta, hinstruction⟩ := Option.ite_none_right_eq_some.mp h
      cases hinstruction
      exact reads_decode_packedAdvance hdelta
  | offset reg factored =>
      cases h
      by_cases hreg : reg < 0x40
      · simp only [encode, if_pos hreg]
        exact reads_decode_packedOffset hreg factored
      · simp only [encode, if_neg hreg]
        exact reads_decode (two _ _ _ _)
  | defCfa reg amount =>
      cases h
      exact reads_decode (two _ _ _ _)
  | defCfaRegister reg =>
      cases h
      exact reads_decode (one _ _ _)
  | defCfaOffset amount =>
      cases h
      exact reads_decode (one _ _ _)
  | offsetExtended reg factored =>
      cases h
      exact reads_decode (two _ _ _ _)
  | register reg source =>
      cases h
      exact reads_decode (two _ _ _ _)
  | undefined reg =>
      cases h
      exact reads_decode (one _ _ _)

theorem Call.encode_ne_nil {call : Call} {instruction : Instruction}
    (h : call.instruction? = some instruction) : call.encode ≠ [] := by
  cases call with
  | offset reg factored =>
      rw [encode]
      split <;> exact List.cons_ne_nil _ _
  | bytes raw => cases h
  | _ => exact List.cons_ne_nil _ _

/-! ## A program -/

theorem assemble_cons (call : Call) (rest : List Call) :
    assemble (call :: rest) = call.encode ++ assemble rest :=
  List.flatMap_cons

/-- The first call of a program is listed first, and then the rest from behind it. -/
theorem listing_cons {call : Call} {rest : List Call} {instruction : Instruction}
    (h : Stands target pos (call :: rest)) (hcall : call.instruction? = some instruction)
    (hstop : ctx.stop = pos + UInt64.ofNat (assemble (call :: rest)).length) :
    listing target ctx pos =
      .ok instruction :: listing target ctx (pos + UInt64.ofNat call.encode.length) := by
  have hroom := h.room
  have hbytes := h.holds
  have hpart : 0 < call.encode.length := List.length_pos_iff.mpr (Call.encode_ne_nil hcall)
  have hwhole : call.encode.length ≤ (assemble (call :: rest)).length := by
    rw [assemble_cons, List.length_append]
    omega
  have hbelow : pos < ctx.stop := by
    rw [hstop, UInt64.lt_iff_toNat_lt, Target.toNat_add_ofNat hroom]
    omega
  rw [assemble_cons, Target.holds_append] at hbytes
  have hdecode : decode target ctx pos = .ok instruction _ :=
    Call.reads_decode_encode hcall hbytes.1 (by omega)
  rw [listing_eq, if_pos hbelow, hdecode]

/-- What stands behind the first call of a program. -/
theorem Stands.behind {call : Call} {rest : List Call} (h : Stands target pos (call :: rest)) :
    Stands target (pos + UInt64.ofNat call.encode.length) rest := by
  have hbytes := h.holds
  have hroom := h.room
  rw [assemble_cons, Target.holds_append] at hbytes
  rw [assemble_cons, List.length_append] at hroom
  refine ⟨hbytes.2, ?_⟩
  rw [Target.toNat_add_ofNat (by omega)]
  omega

theorem listing_assemble (h : Stands target pos calls)
    (hcalls : calls.map Call.instruction? = instructions.map some)
    (hstop : ctx.stop = pos + UInt64.ofNat (assemble calls).length) :
    listing target ctx pos = instructions.map .ok := by
  induction calls generalizing pos instructions with
  | nil =>
      have hnone : instructions = [] := List.map_eq_nil_iff.mp hcalls.symm
      have hempty : ctx.stop = pos := by
        rw [hstop]
        exact UInt64.add_zero pos
      rw [listing_eq, hempty, if_neg (UInt64.lt_irrefl pos), hnone]
      rfl
  | cons call rest ih =>
      obtain ⟨instruction, others, rfl, hcall, hothers⟩ := List.map_eq_cons_iff.mp hcalls.symm
      have hbehind : ctx.stop =
          pos + UInt64.ofNat call.encode.length + UInt64.ofNat (assemble rest).length := by
        rw [hstop, assemble_cons, Target.add_ofNat_length]
      rw [listing_cons h hcall.symm hstop, ih h.behind hothers.symm hbehind]
      rfl

/-- Over the bytes of a program of single instructions, wherever they stand,
these instructions are decoded and nothing else.  So what two programs in a row
are decoded as is what they are decoded as apart, wherever each of them stands. -/
theorem decoded_eq_instructions (hcalls : calls.map Call.instruction? = instructions.map some)
    (h : Stands target base calls) (ctx : ProgramContext) :
    decoded target ctx base calls = instructions.map .ok ∧
      ∀ first second, calls = first ++ second →
        ∀ there firstCtx firstBase, Stands there firstBase first →
          ∀ elsewhere secondCtx secondBase, Stands elsewhere secondBase second →
            decoded target ctx base calls =
              decoded there firstCtx firstBase first ++
                decoded elsewhere secondCtx secondBase second := by
  have hwhole : decoded target ctx base calls = instructions.map .ok :=
    listing_assemble h hcalls rfl
  refine ⟨hwhole, ?_⟩
  rintro first second rfl there firstCtx firstBase hfirst elsewhere secondCtx secondBase hsecond
  rw [List.map_append] at hcalls
  obtain ⟨one, other, rfl, hone, hother⟩ := List.map_eq_append_iff.mp hcalls.symm
  have hfirstDecoded : decoded there firstCtx firstBase first = one.map .ok :=
    listing_assemble hfirst hone.symm rfl
  have hsecondDecoded : decoded elsewhere secondCtx secondBase second = other.map .ok :=
    listing_assemble hsecond hother.symm rfl
  rw [hwhole, hfirstDecoded, hsecondDecoded, List.map_append]

/-- A program with a register on either side of 64 and the longest operand there is,
in 33 bytes. -/
def prologue : List Call :=
  [.defCfa 7 8, .offset 16 1, .advance 63, .defCfaOffset 16, .offset 200 300, .defCfaRegister 6,
    .register 16 0xffffffffffffffff, .undefined 64, .offsetExtended 6 2, .advance 0]

/-- Memory that holds nothing but a program. -/
def holding (base : UInt64) (calls : List Call) : Target :=
  (Image.WordImage.space .x86_64).target
    (Image.WordImage.empty.writeBytes .x86_64 base (assemble calls)) () true

theorem stands_holding (hroom : base.toNat + (assemble calls).length < 2 ^ 64) :
    Stands (holding base calls) base calls :=
  ⟨Image.WordImage.holds_writeBytes (by decide) (by decide) true (by omega), hroom⟩

def prologueInstructions : List Instruction :=
  [.defCfa 7 8, .offset .packed 16 1, .advanceLoc .packed 63, .defCfaOffset 16,
    .offset .extended 200 300, .defCfaRegister 6, .register 16 0xffffffffffffffff,
    .undefined 64, .offset .extended 6 2, .advanceLoc .packed 0]

theorem decoded_eq_instructions_prologue :
    let target := holding 0xffffffffffffffde prologue
    decoded target ⟨.absolute, {}, 0⟩ 0xffffffffffffffde prologue =
        prologueInstructions.map .ok ∧
      decoded target ⟨.absolute, {}, 0⟩ 0xffffffffffffffde prologue =
        decoded (holding 0x1000 (prologue.take 3)) ⟨.absolute, {}, 0⟩ 0x1000
            (prologue.take 3) ++
          decoded (holding 0x2001 (prologue.drop 3)) ⟨.absolute, {}, 0⟩ 0x2001
            (prologue.drop 3) := by
  intro target
  have hcalls : prologue.map Call.instruction? = prologueInstructions.map some := rfl
  have hstands : Stands target 0xffffffffffffffde prologue := stands_holding (by decide +kernel)
  obtain ⟨hlisted, hsplit⟩ := decoded_eq_instructions hcalls hstands ⟨.absolute, {}, 0⟩
  refine ⟨hlisted, hsplit _ _ rfl _ _ _ (stands_holding ?_) _ _ _ (stands_holding ?_)⟩
  all_goals decide +kernel

end StackWalk.Assembler
