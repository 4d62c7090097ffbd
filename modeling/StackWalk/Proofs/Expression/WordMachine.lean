import Mathlib.Tactic
import StackWalk.Expression
import StackWalk.Proofs.Action
import StackWalk.Proofs.Expression.Cells
import StackWalk.Proofs.Expression.WordArithmetic

/-!
# A machine on words

The reference for expressions is a machine whose cells are words of the
target's width and nothing more.  It reads an operation with all its operands,
then says what becomes of the stack as an equation between lists of words.  An
expression evaluates to what this machine computes, and fails when it does and
with the same error.
-/

namespace StackWalk.Expression

variable {w : Nat} {ctx : Context}

/-! ## Operations with their operands -/

inductive Operation where
  | constant (value : Int)
  | load
  | loadBytes (count : Nat)
  | copy (index : Nat)
  | drop
  | swap
  | rotate
  | unary (op : UnaryOp)
  | binary (op : BinaryOp)
  /-- The operand is only asked for when there is a cell to add it to. -/
  | add (operand : Except UnwindError UInt64)
  | register (reg : UInt64) (offset : Int)
  | nop
  | jump (offset : UInt64)
  | jumpIf (offset : UInt64)
  | name (reg : UInt64)
  | finish
  | unknown
  deriving DecidableEq

def unsignedConstant (scan : Scan UInt64) : Scan Operation :=
  (fun value => .constant value.toNat) <$> scan

def signedConstant (bits : Nat) (scan : Scan UInt64) : Scan Operation :=
  (fun value => .constant (Int.bmod value.toNat (2 ^ bits))) <$> scan

def readJump (target : Target) (build : UInt64 → Operation) : Scan Operation :=
  (fun value => build (signExtend 16 value)) <$> target.readUInt 2

/-- The operation of an opcode that belongs to a family: arithmetic, or a
range of opcodes that hold a number. -/
def readFamily (target : Target) (opcode : UInt8) : Scan Operation :=
  match BinaryOp.ofOpcode? opcode, UnaryOp.ofOpcode? opcode with
  | some op, _ => pure (.binary op)
  | none, some op => pure (.unary op)
  | none, none =>
      if 0x30 ≤ opcode ∧ opcode ≤ 0x4f then
        pure (.constant (opcode.toNat - 0x30))
      else if 0x70 ≤ opcode ∧ opcode ≤ 0x8f then
        (fun offset : Int64 => .register (opcode - 0x70).toUInt64 offset.toInt) <$>
          target.readSLeb128
      else
        pure .unknown

/-- The operation of an opcode, with the operands that follow it. -/
def readOperands (target : Target) (opcode : UInt8) : Scan Operation :=
  if 0x50 ≤ opcode ∧ opcode ≤ 0x6f then
    pure (.name (opcode - 0x50).toUInt64)
  else
    match opcode with
    | 0x03 => unsignedConstant target.readTargetWord
    | 0x06 => pure .load
    | 0x08 => unsignedConstant (UInt8.toUInt64 <$> target.readU8)
    | 0x09 => signedConstant 8 (UInt8.toUInt64 <$> target.readU8)
    | 0x0a => unsignedConstant (target.readUInt 2)
    | 0x0b => signedConstant 16 (target.readUInt 2)
    | 0x0c => unsignedConstant (target.readUInt 4)
    | 0x0d => signedConstant 32 (target.readUInt 4)
    | 0x0e => unsignedConstant (target.readUInt 8)
    | 0x0f => signedConstant 64 (target.readUInt 8)
    | 0x10 => unsignedConstant target.readULeb128
    | 0x11 => (fun value : Int64 => .constant value.toInt) <$> target.readSLeb128
    | 0x12 => pure (.copy 0)
    | 0x13 => pure .drop
    | 0x14 => pure (.copy 1)
    | 0x15 => (fun index : UInt8 => .copy index.toNat) <$> target.readU8
    | 0x16 => pure .swap
    | 0x17 => pure .rotate
    | 0x23 => .add <$> Action.attempt target.readULeb128
    | 0x28 => readJump target .jumpIf
    | 0x2f => readJump target .jump
    | 0x90 => .name <$> target.readULeb128
    | 0x92 => do
        let reg ← target.readULeb128
        let offset ← target.readSLeb128
        return .register reg offset.toInt
    | 0x94 => (fun count : UInt8 => .loadBytes count.toNat) <$> target.readU8
    | 0x96 => pure .nop
    | 0x9f => pure .finish
    | _ => readFamily target opcode

def readOperation (target : Target) : Scan Operation := do
  let opcode ← target.readU8
  readOperands target opcode

/-! ## The machine -/

/-- Where the machine reads, and its stack, topmost word first. -/
structure WordMachine (w : Nat) where
  pos : UInt64
  stack : List (BitVec w)
  deriving DecidableEq, Repr

inductive Outcome (w : Nat) where
  | next (machine : WordMachine w)
  | done (result : Result)
  deriving DecidableEq, Repr

abbrev underflow {α : Type} : Except UnwindError α :=
  .error (.invalidArgument .stackUnderflow)

/-- The stack after an operation that leaves the position alone. -/
@[simp] def stackAfter (ctx : Context) :
    Operation → List (BitVec w) → Except UnwindError (List (BitVec w))
  | .constant value, stack => .ok (.ofInt w value :: stack)
  | .load, addr :: rest => do
      let word ← ctx.target.readWord (cellOf addr)
      return .ofNat w word.toNat :: rest
  | .loadBytes count, stack =>
      if count = 0 ∨ ctx.target.arch.addressSize < count then
        .error (.invalidArgument .derefSize)
      else
        match stack with
        | [] => underflow
        | addr :: rest => do
            let word ← (ctx.target.readUInt count).answer (cellOf addr)
            return .ofNat w word.toNat :: rest
  | .copy index, stack =>
      match stack[index]? with
      | none => underflow
      | some word => .ok (word :: stack)
  | .drop, _ :: rest => .ok rest
  | .swap, a :: b :: rest => .ok (b :: a :: rest)
  | .rotate, a :: b :: c :: rest => .ok (b :: c :: a :: rest)
  | .unary op, a :: rest => .ok (op.onWord a :: rest)
  | .binary op, b :: a :: rest =>
      match op.onWords a b with
      | some word => .ok (word :: rest)
      | none => .error (.invalidArgument .divisionByZero)
  | .add operand, a :: rest => do
      let value ← operand
      return .ofInt w (a.toInt + value.toNat) :: rest
  | .register reg offset, stack => do
      let value ← readRegister ctx reg
      return .ofInt w (value.toNat + offset) :: stack
  | .nop, stack => .ok stack
  | .unknown, _ => .error (.invalidArgument .expressionOpcode)
  | _, _ => underflow

namespace WordMachine

def grow (pos : UInt64) (stack : List (BitVec w)) : Except UnwindError (Outcome w) :=
  if stack.length ≤ maxDepth then
    .ok (.next ⟨pos, stack⟩)
  else
    .error (.outOfMemory .expressionStack)

def jump (ctx : Context) (offset : UInt64) (machine : WordMachine w) :
    Except UnwindError (Outcome w) :=
  let pos := machine.pos + offset
  if ctx.start ≤ pos ∧ pos ≤ ctx.stop then
    .ok (.next { machine with pos := pos })
  else
    .error (.invalidArgument .branchOutside)

@[simp] def execute (ctx : Context) (machine : WordMachine w) :
    Operation → Except UnwindError (Outcome w)
  | .finish =>
      match machine.stack with
      | [] => underflow
      | word :: _ => .ok (.done (.value (cellOf word)))
  | .jump offset => machine.jump ctx offset
  | .jumpIf offset =>
      match machine.stack with
      | [] => underflow
      | word :: rest =>
          if word.toNat = 0 then
            .ok (.next { machine with stack := rest })
          else
            jump ctx offset { machine with stack := rest }
  | .name reg => do
      let column ← ctx.target.arch.checkReg reg
      return .done (.register column)
  | op => do
      let stack ← stackAfter ctx op machine.stack
      grow machine.pos stack

/-- Executes what the scan reads. -/
def proceed (ctx : Context) (scan : Scan Operation) (machine : WordMachine w) :
    Except UnwindError (Outcome w) :=
  match scan machine.pos with
  | .error e _ => .error e
  | .ok op next => execute ctx { machine with pos := next } op

def step (ctx : Context) (machine : WordMachine w) : Except UnwindError (Outcome w) :=
  machine.proceed ctx (readOperation ctx.target)

/-- The word on top is the address computed. -/
def top (machine : WordMachine w) : Except UnwindError Result :=
  match machine.stack with
  | [] => underflow
  | word :: _ => .ok (.address (cellOf word))

/-- At most `budget` steps, up to the end of the program. -/
def run (ctx : Context) : Nat → WordMachine w → Except UnwindError Result
  | 0, machine =>
      if machine.pos < ctx.stop then
        .error (.invalidArgument .expressionEndless)
      else
        machine.top
  | budget + 1, machine =>
      if machine.pos < ctx.stop then
        match machine.step ctx with
        | .error e => .error e
        | .ok (.done result) => .ok result
        | .ok (.next after) => run ctx budget after
      else
        machine.top

/-- The machine before its first step. -/
def start (w : Nat) (pos : UInt64) (first : Option UInt64) : WordMachine w :=
  ⟨pos, (first.map (truncated w)).toList⟩

/-- The cells that hold the words. -/
def toMachine (machine : WordMachine w) : Machine :=
  ⟨machine.pos, machine.stack.map cellOf⟩

end WordMachine

/-- Evaluates the expression at an address on the machine of words. -/
def evaluateOnWords (target : Target) (locs : Column → Location) (addr : UInt64)
    (first : Option UInt64) : Except UnwindError Result :=
  match target.readULeb128 addr with
  | .error e _ => .error e
  | .ok length start => do
      let stop ← programEnd start length
      WordMachine.run ⟨target, locs, start, stop⟩ maxOperations
        (WordMachine.start target.arch.wordBits start first)

/-! ## Cells and words -/

abbrev Context.wordBits (ctx : Context) : Nat :=
  ctx.target.arch.wordBits

open WordMachine

/-- The body leaves the cells of what the machine of words has after it, or
fails with its error. -/
def Simulates (body : Run Unit) (words : WordMachine ctx.wordBits)
    (answer : Except UnwindError (Outcome ctx.wordBits)) : Prop :=
  match answer with
  | .ok (.next after) =>
      body words.toMachine = .ok () after.toMachine ∧ after.stack.length ≤ maxDepth
  | .ok (.done _) => False
  | .error e => ∃ left, body words.toMachine = .error e left

variable {pos : UInt64} {stack : List (BitVec ctx.wordBits)}

namespace Simulates

variable {word : BitVec ctx.wordBits} {rest : List (BitVec ctx.wordBits)}
  {answer : Except UnwindError (Outcome ctx.wordBits)}

@[simp] theorem pop_cons {f : UInt64 → Run Unit} :
    @Simulates ctx (pop >>= f) ⟨pos, word :: rest⟩ answer ↔
      Simulates (f (cellOf word)) ⟨pos, rest⟩ answer := Iff.rfl

@[simp] theorem pop_nil {f : UInt64 → Run Unit} :
    @Simulates ctx (pop >>= f) ⟨pos, []⟩ underflow :=
  ⟨_, rfl⟩

@[simp] theorem lift_error {α : Type} {e : UnwindError} {f : α → Run Unit}
    {words : WordMachine ctx.wordBits} :
    Simulates (liftM (.error e : Except UnwindError α) >>= f) words (.error e) :=
  ⟨_, rfl⟩

theorem push_words (value pos : UInt64) (stack : List (BitVec ctx.wordBits)) :
    push ctx value (toMachine ⟨pos, stack⟩) =
      if stack.length < maxDepth then
        .ok ⟨⟩ (toMachine ⟨pos, truncated ctx.wordBits value :: stack⟩)
      else
        .error (.outOfMemory .expressionStack) (toMachine ⟨pos, stack⟩) := by
  have hlength : (toMachine ⟨pos, stack⟩).stack.length = stack.length := List.length_map _
  unfold Expression.push
  rw [Action.get_bind_apply, hlength]
  split
  · rw [and_wordMask_eq_cellOf]
    rfl
  · rfl

theorem push_bind {value : UInt64} {f : PUnit → Run Unit}
    (hvalue : truncated ctx.wordBits value = word) (h : stack.length < maxDepth) :
    Simulates (push ctx value >>= f) ⟨pos, stack⟩ answer ↔
      Simulates (f ⟨⟩) ⟨pos, word :: stack⟩ answer := by
  have hpush := push_words value pos stack
  rw [if_pos h, hvalue] at hpush
  unfold Simulates
  rw [Action.bind_eq_of_ok hpush]

theorem push {value : UInt64} (hvalue : truncated ctx.wordBits value = word) :
    Simulates (push ctx value) ⟨pos, stack⟩ (grow pos (word :: stack)) := by
  have hpush := push_words value pos stack
  rw [hvalue] at hpush
  unfold grow
  split
  · rename_i hroom
    exact ⟨hpush.trans (if_pos hroom), hroom⟩
  · rename_i hfull
    exact ⟨_, hpush.trans (if_neg hfull)⟩

theorem copyCell (index : Nat) :
    Simulates (copyCell ctx index) ⟨pos, stack⟩ (execute ctx ⟨pos, stack⟩ (.copy index)) := by
  have hpick : pick index (toMachine ⟨pos, stack⟩) =
      match stack[index]? with
      | none => .error (.invalidArgument .stackUnderflow) (toMachine ⟨pos, stack⟩)
      | some word => .ok (cellOf word) (toMachine ⟨pos, stack⟩) := by
    simp only [pick, Action.get_bind_apply, toMachine, List.getElem?_map]
    cases stack[index]? <;> rfl
  simp only [execute, stackAfter]
  cases hcell : stack[index]? with
  | none =>
      rw [hcell] at hpick
      exact ⟨_, Action.bind_eq_of_error hpick _⟩
  | some word =>
      rw [hcell] at hpick
      have hpush : Simulates (Expression.push ctx (cellOf word)) ⟨pos, stack⟩
          (grow pos (word :: stack)) :=
        push (truncated_cellOf ctx.target.arch.wordBits_le word)
      simp only [ok_bind]
      unfold Expression.copyCell Simulates
      rw [Action.bind_eq_of_ok hpick]
      exact hpush

end Simulates

/-! ## Operations -/

theorem simulates_load :
    Simulates (do
      let addr ← pop
      let word ← ctx.target.readWord addr
      push ctx word) ⟨pos, stack⟩ (execute ctx ⟨pos, stack⟩ .load) := by
  rcases stack with _ | ⟨addr, rest⟩
  · simp
  · simp only [execute, stackAfter, Simulates.pop_cons]
    cases ctx.target.readWord (cellOf addr) with
    | error e => simp
    | ok word => exact .push rfl

theorem simulates_loadBytes (count : Nat) :
    Simulates (derefSize ctx count) ⟨pos, stack⟩
      (execute ctx ⟨pos, stack⟩ (.loadBytes count)) := by
  simp only [derefSize, execute, stackAfter]
  split
  · exact ⟨_, rfl⟩
  · rcases stack with _ | ⟨addr, rest⟩
    · simp
    · simp only [Simulates.pop_cons]
      cases (ctx.target.readUInt count).answer (cellOf addr) with
      | error e => simp
      | ok word => exact .push rfl

theorem simulates_drop (h : stack.length ≤ maxDepth) :
    Simulates (do let _ ← pop) ⟨pos, stack⟩ (execute ctx ⟨pos, stack⟩ .drop) := by
  rcases stack with _ | ⟨word, rest⟩
  · exact ⟨_, rfl⟩
  · have hrest : rest.length ≤ maxDepth := Nat.le_of_succ_le h
    simp only [execute, stackAfter, ok_bind, grow, if_pos hrest]
    exact ⟨rfl, hrest⟩

theorem simulates_nop (h : stack.length ≤ maxDepth) :
    Simulates (pure ()) ⟨pos, stack⟩ (execute ctx ⟨pos, stack⟩ .nop) := by
  simp only [execute, stackAfter, ok_bind, grow, if_pos h]
  exact ⟨rfl, h⟩

theorem simulates_swap (h : stack.length ≤ maxDepth) :
    Simulates (do
      let a ← pop
      let b ← pop
      push ctx a
      push ctx b) ⟨pos, stack⟩ (execute ctx ⟨pos, stack⟩ .swap) := by
  have hw := ctx.target.arch.wordBits_le
  rcases stack with _ | ⟨a, _ | ⟨b, rest⟩⟩
  · simp
  · simp
  · simp only [List.length_cons] at h
    simp only [execute, stackAfter, Simulates.pop_cons, ok_bind]
    rw [Simulates.push_bind (truncated_cellOf hw a) (by omega)]
    exact .push (truncated_cellOf hw b)

theorem simulates_rotate (h : stack.length ≤ maxDepth) :
    Simulates (do
      let a ← pop
      let b ← pop
      let c ← pop
      push ctx a
      push ctx c
      push ctx b) ⟨pos, stack⟩ (execute ctx ⟨pos, stack⟩ .rotate) := by
  have hw := ctx.target.arch.wordBits_le
  rcases stack with _ | ⟨a, _ | ⟨b, _ | ⟨c, rest⟩⟩⟩
  · simp
  · simp
  · simp
  · simp only [List.length_cons] at h
    simp only [execute, stackAfter, Simulates.pop_cons, ok_bind]
    rw [Simulates.push_bind (truncated_cellOf hw a) (by omega),
      Simulates.push_bind (truncated_cellOf hw c) (by simp only [List.length_cons]; omega)]
    exact .push (truncated_cellOf hw b)

theorem simulates_unary (op : UnaryOp) :
    Simulates (unary ctx op) ⟨pos, stack⟩ (execute ctx ⟨pos, stack⟩ (.unary op)) := by
  rcases stack with _ | ⟨a, rest⟩
  · simp [unary]
  · simp only [unary, execute, stackAfter, Simulates.pop_cons, ok_bind]
    exact .push (truncated_unary ctx.target.arch.wordBits_le op a)

theorem simulates_binary (op : BinaryOp) :
    Simulates (binary ctx op) ⟨pos, stack⟩ (execute ctx ⟨pos, stack⟩ (.binary op)) := by
  rcases stack with _ | ⟨b, _ | ⟨a, rest⟩⟩
  · simp [binary]
  · simp [binary]
  · have hop := truncated_binary ctx.target.arch.wordBits_le op a b
    simp only [binary, execute, stackAfter, Simulates.pop_cons]
    cases hvalue : op.apply ctx.wordBits (cellOf a) (cellOf b) with
    | error e =>
        rw [hvalue] at hop
        cases hwords : op.onWords a b <;> rw [hwords] at hop <;> cases hop
        simp
    | ok value =>
        rw [hvalue] at hop
        cases hwords : op.onWords a b <;> rw [hwords] at hop <;> cases hop
        exact .push rfl

theorem simulates_register (reg : UInt64) (offset : Int64) :
    Simulates (pushRegister ctx reg offset) ⟨pos, stack⟩
      (execute ctx ⟨pos, stack⟩ (.register reg offset.toInt)) := by
  simp only [pushRegister, execute, stackAfter]
  cases readRegister ctx reg with
  | error e => simp
  | ok value => exact .push (truncated_addOffset ctx.target.arch.wordBits_le value offset)

theorem simulates_jump (offset : UInt64) (h : stack.length ≤ maxDepth) :
    Simulates (branch ctx offset) ⟨pos, stack⟩ (execute ctx ⟨pos, stack⟩ (.jump offset)) := by
  have hbranch : branch ctx offset (toMachine ⟨pos, stack⟩) =
      if pos + offset < ctx.start ∨ ctx.stop < pos + offset then
        .error (.invalidArgument .branchOutside) (toMachine ⟨pos, stack⟩)
      else
        .ok ⟨⟩ (toMachine ⟨pos + offset, stack⟩) := by
    unfold branch
    rw [Action.get_bind_apply]
    split
    · exact (if_pos ‹_›).symm
    · exact (if_neg ‹_›).symm
  have hinside : ctx.start ≤ pos + offset ∧ pos + offset ≤ ctx.stop ↔
      ¬(pos + offset < ctx.start ∨ ctx.stop < pos + offset) := by
    rw [not_or, UInt64.not_lt, UInt64.not_lt]
  simp only [execute, jump, hinside]
  split
  · rename_i hjump
    exact ⟨hbranch.trans (if_neg hjump), h⟩
  · rename_i hjump
    exact ⟨_, hbranch.trans (if_pos (not_not.mp hjump))⟩

theorem simulates_jumpIf (offset : UInt64) (h : stack.length ≤ maxDepth) :
    Simulates (do
      let condition ← pop
      if condition ≠ 0 then
        branch ctx offset) ⟨pos, stack⟩ (execute ctx ⟨pos, stack⟩ (.jumpIf offset)) := by
  rcases stack with _ | ⟨word, rest⟩
  · exact ⟨_, rfl⟩
  · have hrest : rest.length ≤ maxDepth := Nat.le_of_succ_le h
    have hzero : cellOf word = 0 ↔ word.toNat = 0 := by
      rw [← UInt64.toNat_inj, toNat_cellOf ctx.target.arch.wordBits_le]
      rfl
    simp only [execute, Simulates.pop_cons]
    by_cases hword : word.toNat = 0
    · rw [if_pos hword, if_neg (not_not.mpr (hzero.mpr hword))]
      exact ⟨rfl, hrest⟩
    · rw [if_neg hword, if_pos (mt hzero.mp hword)]
      exact simulates_jump offset hrest

/-! ## Operands -/

/-- From every stack within its depth the body does what the machine of words
does with the operation that is read. -/
def Follows (ctx : Context) (body : Run Unit) (scan : Scan Operation) : Prop :=
  ∀ (pos : UInt64) (stack : List (BitVec ctx.wordBits)), stack.length ≤ maxDepth →
    Simulates body ⟨pos, stack⟩ (proceed ctx scan ⟨pos, stack⟩)

namespace Follows

variable {α β : Type} {body : Run Unit} {op : Operation}

theorem pure (h : ∀ (pos : UInt64) (stack : List (BitVec ctx.wordBits)),
      stack.length ≤ maxDepth → Simulates body ⟨pos, stack⟩ (execute ctx ⟨pos, stack⟩ op)) :
    Follows ctx body (Pure.pure op) :=
  h

theorem operand_toMachine (scan : Scan α) (pos : UInt64) (stack : List (BitVec w)) :
    operand scan (toMachine ⟨pos, stack⟩) =
      match scan pos with
      | .ok a next => .ok a (toMachine ⟨next, stack⟩)
      | .error e next => .error e (toMachine ⟨next, stack⟩) := by
  simp only [operand, Action.zoom, toMachine]
  cases scan pos <;> rfl

theorem bind {scan : Scan α} {f : α → Run Unit} {g : α → Scan Operation}
    (h : ∀ a, Follows ctx (f a) (g a)) : Follows ctx (operand scan >>= f) (scan >>= g) := by
  intro pos stack hdepth
  have hoperand := operand_toMachine scan pos stack
  unfold proceed
  rw [Action.bind_apply]
  cases hscan : scan pos with
  | error e next =>
      rw [hscan] at hoperand
      exact ⟨_, Action.bind_eq_of_error hoperand f⟩
  | ok a next =>
      rw [hscan] at hoperand
      have hbody := h a next stack hdepth
      unfold Simulates at hbody ⊢
      rw [Action.bind_eq_of_ok hoperand]
      exact hbody

theorem map {scan : Scan α} {f : α → Run Unit} {build : α → Operation}
    (h : ∀ a (pos : UInt64) (stack : List (BitVec ctx.wordBits)), stack.length ≤ maxDepth →
      Simulates (f a) ⟨pos, stack⟩ (execute ctx ⟨pos, stack⟩ (build a))) :
    Follows ctx (operand scan >>= f) (build <$> scan) := by
  rw [map_eq_pure_bind]
  exact bind fun a => pure (h a)

theorem operand_map_bind (view : α → β) (scan : Scan α) (f : β → Run Unit) :
    operand (view <$> scan) >>= f = operand scan >>= fun a => f (view a) := by
  funext machine
  have hmap := Action.map_apply view scan machine.pos
  rw [Action.bind_apply, Action.bind_apply]
  simp only [operand, Action.zoom, hmap]
  cases scan machine.pos <;> rfl

theorem constant {scan : Scan UInt64} {build : UInt64 → Int}
    (h : ∀ word, truncated ctx.wordBits word = .ofInt _ (build word)) :
    Follows ctx (constant ctx scan) ((fun word => .constant (build word)) <$> scan) :=
  map fun word _ _ _ => .push (h word)

theorem constant_map {scan : Scan α} {view : α → UInt64} {build : α → Int}
    (h : ∀ a, truncated ctx.wordBits (view a) = .ofInt _ (build a)) :
    Follows ctx (Expression.constant ctx (view <$> scan))
      ((fun a => .constant (build a)) <$> scan) := by
  unfold Expression.constant
  rw [operand_map_bind]
  exact map fun a _ _ _ => .push (h a)

theorem unsignedConstant (scan : Scan UInt64) :
    Follows ctx (Expression.constant ctx scan) (unsignedConstant scan) :=
  constant fun word => (BitVec.ofInt_natCast _ word.toNat).symm

theorem signedConstant {bits : Nat} (hbits : bits ≤ 64) (scan : Scan UInt64) :
    Follows ctx (Expression.constant ctx (signExtend bits <$> scan))
      (signedConstant bits scan) :=
  constant_map fun word => truncated_signExtend ctx.target.arch.wordBits_le hbits word

/-- Eight bytes are as wide as a cell can be, so that their sign needs no
extension. -/
theorem signedConstant_widest (scan : Scan UInt64) :
    Follows ctx (Expression.constant ctx scan) (Expression.signedConstant 64 scan) := by
  refine constant fun word => ?_
  rw [truncated, ← BitVec.ofInt_natCast]
  exact ofInt_eq_of_emod_eq ctx.target.arch.wordBits_le (bmod_emod_word _).symm

theorem add (scan : Scan UInt64) :
    Follows ctx (do
      let a ← pop
      let b ← operand scan
      push ctx (a + b)) (.add <$> Action.attempt scan) := by
  intro pos stack _
  unfold proceed
  rw [Action.map_apply, Action.attempt_apply]
  rcases stack with _ | ⟨a, rest⟩
  · cases scan pos <;> simp
  · have hoperand := operand_toMachine scan pos rest
    cases hscan : scan pos with
    | error e next =>
        rw [hscan] at hoperand
        exact ⟨_, Action.bind_eq_of_error hoperand _⟩
    | ok b next =>
        rw [hscan] at hoperand
        have hpush : Simulates (push ctx (cellOf a + b)) ⟨next, rest⟩
            (grow next (.ofInt _ (a.toInt + b.toNat) :: rest)) :=
          .push (truncated_cellOf_add ctx.target.arch.wordBits_le a b)
        simp only [execute, stackAfter, ok_bind, pure_eq_ok, Simulates.pop_cons]
        unfold Simulates at hpush ⊢
        rw [Action.bind_eq_of_ok hoperand]
        exact hpush

theorem literal {opcode : UInt8} (h : 0x30 ≤ opcode) :
    Follows ctx (push ctx (opcode - 0x30).toUInt64)
      (Pure.pure (.constant (opcode.toNat - 0x30))) := by
  have hless : ((opcode - 0x30).toUInt64.toNat : Int) = opcode.toNat - 0x30 := by
    have hle : (0x30 : UInt8).toNat ≤ opcode.toNat := UInt8.le_iff_toNat_le.mp h
    rw [UInt8.toNat_toUInt64, UInt8.toNat_sub_of_le _ _ h, Nat.cast_sub hle]
    rfl
  refine pure fun pos stack _ => .push ?_
  rw [← hless, BitVec.ofInt_natCast]
  rfl

end Follows

theorem stackOperation_follows {opcode : UInt8} (hname : ¬(0x50 ≤ opcode ∧ opcode ≤ 0x6f))
    (hregister : opcode ≠ 0x90) (hvalue : opcode ≠ 0x9f) :
    Follows ctx (stackOperation ctx opcode) (readOperands ctx.target opcode) := by
  unfold readOperands
  rw [if_neg hname]
  unfold stackOperation
  dsimp only
  split
  case h_1 => exact .unsignedConstant _
  case h_2 => exact .pure fun _ _ _ => simulates_load
  case h_3 => exact .unsignedConstant _
  case h_4 =>
    rw [comp_map]
    exact .signedConstant (by decide) _
  case h_5 => exact .unsignedConstant _
  case h_6 => exact .signedConstant (by decide) _
  case h_7 => exact .unsignedConstant _
  case h_8 => exact .signedConstant (by decide) _
  case h_9 => exact .unsignedConstant _
  case h_10 => exact .signedConstant_widest _
  case h_11 => exact .unsignedConstant _
  case h_12 => exact .constant_map fun _ => truncated_toUInt64 ctx.target.arch.wordBits_le rfl
  case h_13 => exact .pure fun _ _ _ => .copyCell 0
  case h_14 => exact .pure fun _ _ h => simulates_drop h
  case h_15 => exact .pure fun _ _ _ => .copyCell 1
  case h_16 => exact .map fun _ _ _ _ => .copyCell _
  case h_17 => exact .pure fun _ _ h => simulates_swap h
  case h_18 => exact .pure fun _ _ h => simulates_rotate h
  case h_19 => exact .add _
  case h_20 =>
    rw [Follows.operand_map_bind]
    exact .map fun _ _ _ h => simulates_jumpIf _ h
  case h_21 =>
    rw [Follows.operand_map_bind]
    exact .map fun _ _ _ h => simulates_jump _ h
  case h_22 => exact .bind fun _ => .map fun _ _ _ _ => simulates_register _ _
  case h_23 => exact .map fun _ _ _ _ => simulates_loadBytes _
  case h_24 => exact .pure fun _ _ h => simulates_nop h
  case h_25 =>
    -- No listed opcode is left, so that both sides look for a family.
    refine (congrArg (Follows ctx _) (?_ : _ = readFamily ctx.target opcode)).mpr ?_
    · split <;> first | contradiction | rfl
    unfold readFamily
    rcases BinaryOp.ofOpcode? opcode with _ | op
    · rcases UnaryOp.ofOpcode? opcode with _ | op
      · dsimp only
        split
        · rename_i hliteral
          exact .literal hliteral.1
        · split
          · exact .map fun _ _ _ _ => simulates_register _ _
          · exact .pure fun _ _ _ => ⟨_, rfl⟩
      · exact .pure fun _ _ _ => simulates_unary op
    · exact .pure fun _ _ _ => simulates_binary op

/-! ## Steps -/

/-- As `Simulates`, for a body that may end the expression with a result. -/
def SimulatesStep (body : Run (Option Result)) (words : WordMachine ctx.wordBits)
    (answer : Except UnwindError (Outcome ctx.wordBits)) : Prop :=
  match answer with
  | .ok (.next after) =>
      body words.toMachine = .ok none after.toMachine ∧ after.stack.length ≤ maxDepth
  | .ok (.done result) => ∃ left, body words.toMachine = .ok (some result) left
  | .error e => ∃ left, body words.toMachine = .error e left

theorem Simulates.goesOn {body : Run Unit} {words : WordMachine ctx.wordBits}
    {answer : Except UnwindError (Outcome ctx.wordBits)} (h : Simulates body words answer) :
    SimulatesStep (do
      body
      return none) words answer := by
  rcases answer with e | after | result
  · obtain ⟨left, h⟩ := h
    exact ⟨left, Action.bind_eq_of_error h _⟩
  · exact ⟨Action.bind_eq_of_ok h.1 _, h.2⟩
  · exact h.elim

theorem SimulatesStep.operand {α : Type} {scan : Scan α} {f : α → Run (Option Result)}
    {answer : Except UnwindError (Outcome ctx.wordBits)}
    (hok : ∀ a next, scan pos = .ok a next → SimulatesStep (f a) ⟨next, stack⟩ answer)
    (herror : ∀ e next, scan pos = .error e next → answer = .error e) :
    SimulatesStep (operand scan >>= f) ⟨pos, stack⟩ answer := by
  have hoperand := Follows.operand_toMachine scan pos stack
  cases hscan : scan pos with
  | error e next =>
      rw [hscan] at hoperand
      rw [herror e next hscan]
      exact ⟨_, Action.bind_eq_of_error hoperand f⟩
  | ok a next =>
      rw [hscan] at hoperand
      have hbody := hok a next hscan
      unfold SimulatesStep at hbody ⊢
      rw [Action.bind_eq_of_ok hoperand]
      exact hbody

theorem simulates_name (reg : UInt64) :
    SimulatesStep (some <$> nameRegister ctx reg) ⟨pos, stack⟩
      (execute ctx ⟨pos, stack⟩ (.name reg)) := by
  simp only [nameRegister, execute]
  cases ctx.target.arch.checkReg reg with
  | error e => exact ⟨_, rfl⟩
  | ok column => exact ⟨_, rfl⟩

theorem simulates_finish :
    SimulatesStep (do
      let value ← pop
      return some (.value value)) ⟨pos, stack⟩ (execute ctx ⟨pos, stack⟩ .finish) := by
  rcases stack with _ | ⟨word, rest⟩
  · exact ⟨_, rfl⟩
  · exact ⟨_, rfl⟩

theorem simulates_operation (h : stack.length ≤ maxDepth) :
    SimulatesStep (operation ctx) ⟨pos, stack⟩ (WordMachine.step ctx ⟨pos, stack⟩) := by
  unfold WordMachine.step proceed readOperation
  rw [Action.bind_apply]
  refine .operand (fun opcode next hopcode => ?_) (fun e next hopcode => by rw [hopcode])
  rw [hopcode]
  dsimp only
  split
  · rename_i hname
    unfold readOperands
    rw [if_pos hname]
    exact simulates_name _
  · rename_i hname
    split
    · rename_i hregister
      subst hregister
      rw [show readOperands ctx.target 0x90 = .name <$> ctx.target.readULeb128 from rfl,
        Action.map_apply]
      refine .operand (fun reg last hreg => ?_) (fun e last hreg => by rw [hreg])
      rw [hreg]
      exact simulates_name reg
    · rename_i hregister
      split
      · rename_i hvalue
        subst hvalue
        exact simulates_finish
      · rename_i hvalue
        exact (stackOperation_follows hname hregister hvalue next stack h).goesOn

/-! ## Runs -/

theorem pop_answer (words : WordMachine w) :
    (do return .address (← pop) : Run Result).answer words.toMachine = words.top := by
  obtain ⟨pos, _ | ⟨word, rest⟩⟩ := words
  · rfl
  · rfl

theorem runOperations_answer (budget : Nat) (words : WordMachine ctx.wordBits)
    (h : words.stack.length ≤ maxDepth) :
    (runOperations ctx budget).answer words.toMachine = words.run ctx budget := by
  induction budget generalizing words with
  | zero =>
      unfold runOperations WordMachine.run Action.answer Action.perform
      rw [Action.get_bind_apply]
      by_cases hinside : words.pos < ctx.stop
      · rw [if_pos hinside, if_pos (show words.toMachine.pos < ctx.stop from hinside)]
        rfl
      · rw [if_neg hinside, if_neg (show ¬words.toMachine.pos < ctx.stop from hinside)]
        exact pop_answer words
  | succ budget ih =>
      unfold runOperations WordMachine.run Action.answer Action.perform
      rw [Action.get_bind_apply]
      by_cases hinside : words.pos < ctx.stop
      · rw [if_pos hinside, if_pos (show words.toMachine.pos < ctx.stop from hinside)]
        have hstep := @simulates_operation ctx words.pos words.stack h
        unfold SimulatesStep at hstep
        split at hstep
        · rename_i after hwords
          rw [hwords, Action.bind_eq_of_ok hstep.1]
          exact ih after hstep.2
        · rename_i result hwords
          obtain ⟨left, hstep⟩ := hstep
          rw [hwords, Action.bind_eq_of_ok hstep]
          rfl
        · rename_i e hwords
          obtain ⟨left, hstep⟩ := hstep
          rw [hwords, Action.bind_eq_of_error hstep]
      · rw [if_neg hinside, if_neg (show ¬words.toMachine.pos < ctx.stop from hinside)]
        exact pop_answer words

theorem program_answer (first : Option UInt64) (budget : Nat) :
    (do
      if let some word := first then
        push ctx word
      runOperations ctx budget : Run Result).answer ⟨ctx.start, []⟩ =
      (WordMachine.start ctx.wordBits ctx.start first).run ctx budget := by
  cases first with
  | none =>
      exact runOperations_answer budget ⟨ctx.start, []⟩ (Nat.zero_le _)
  | some word =>
      have hpush := @Simulates.push_words ctx word ctx.start []
      change (push ctx word >>= fun _ => runOperations ctx budget).answer
        (toMachine (w := ctx.wordBits) ⟨ctx.start, []⟩) = _
      unfold Action.answer Action.perform
      rw [Action.bind_eq_of_ok hpush]
      exact runOperations_answer budget ⟨ctx.start, [truncated _ word]⟩
        (show 1 ≤ maxDepth by decide)

theorem evaluate_eq_evaluateOnWords (target : Target) (locs : Column → Location) (addr : UInt64)
    (first : Option UInt64) :
    evaluate target locs addr first = evaluateOnWords target locs addr first := by
  unfold evaluate evaluateOnWords
  cases target.readULeb128 addr with
  | error e next => rfl
  | ok length start =>
      exact bind_congr fun stop => @program_answer ⟨target, locs, start, stop⟩ first _

/-! ## The cells of a run -/

/-- The machines that an expression passes through between its operations. -/
inductive Reached (ctx : Context) : Machine → Prop
  | empty : Reached ctx ⟨ctx.start, []⟩
  | pushed {word : UInt64} {machine : Machine}
      (hpush : push ctx word ⟨ctx.start, []⟩ = .ok () machine) : Reached ctx machine
  | next {before after : Machine} (hbefore : Reached ctx before)
      (hstep : operation ctx before = .ok none after) : Reached ctx after

theorem Reached.fits {machine : Machine} (h : Reached ctx machine) :
    machine.Fits ctx.target.arch := by
  have hempty : Machine.Fits ctx.target.arch ⟨ctx.start, []⟩ := by simp [Machine.Fits]
  induction h with
  | empty => exact hempty
  | pushed hpush => exact (push_confined _ _ hempty _ _ hpush).2
  | next _ hstep hbefore => exact (operation_confined _ hbefore _ _ hstep).2

end StackWalk.Expression
