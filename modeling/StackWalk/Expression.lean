import StackWalk.Expression.Arithmetic
import StackWalk.Leb128
import StackWalk.Location

/-!
# Location expressions

An expression is a program for a stack machine, with its length in front.  It
computes an address, names a register, or computes the value itself.  The
stack has 64 cells, and no expression runs for more than 10,000 operations, so
that branches backwards cannot go on for ever.
-/

namespace StackWalk.Expression

def maxDepth : Nat := 64

/-- How many operations an expression may run. -/
def maxOperations : Nat := 10000

/-- What an expression computes. -/
inductive Result where
  /-- The value is in memory. -/
  | address (addr : UInt64)
  /-- The value is in a register. -/
  | register (reg : Column)
  /-- The value itself. -/
  | value (word : UInt64)
  deriving DecidableEq, Repr

/-- What an expression is evaluated with. -/
structure Context where
  target : Target
  /-- The locations of the frame that the expression is about. -/
  locs : Column → Location
  /-- The first byte of the program. -/
  start : UInt64
  /-- One past the last byte of the program. -/
  stop : UInt64

/-- A running expression: where it reads, and the stack, topmost cell first. -/
structure Machine where
  pos : UInt64
  stack : List UInt64
  deriving DecidableEq, Repr

/-- An operation of the machine. -/
abbrev Run (α : Type) := Action Machine α

def operand {α : Type} (scan : Scan α) : Run α :=
  Action.zoom Machine.pos (fun pos machine => { machine with pos }) scan

/-- Puts a word on the stack, cut to the width of a cell. -/
def push (ctx : Context) (word : UInt64) : Run Unit := do
  let machine ← get
  if machine.stack.length < maxDepth then
    set { machine with stack := (word &&& ctx.target.arch.wordMask) :: machine.stack }
  else
    throw (.outOfMemory .expressionStack)

/-- Takes the topmost cell. -/
def pop : Run UInt64 := do
  let machine ← get
  match machine.stack with
  | [] =>
      throw (.invalidArgument .stackUnderflow)
  | cell :: rest =>
      set { machine with stack := rest }
      return cell

/-- The cell with `index` cells above it. -/
def pick (index : Nat) : Run UInt64 := do
  match (← get).stack[index]? with
  | some cell => return cell
  | none => throw (.invalidArgument .stackUnderflow)

def copyCell (ctx : Context) (index : Nat) : Run Unit := do
  push ctx (← pick index)

def readRegister (ctx : Context) (reg : UInt64) : Except UnwindError UInt64 := do
  let column ← ctx.target.arch.checkReg reg
  (ctx.locs column).read ctx.target column

def pushRegister (ctx : Context) (reg : UInt64) (offset : Int64) : Run Unit := do
  let value ← readRegister ctx reg
  push ctx (addOffset value offset)

def nameRegister (ctx : Context) (reg : UInt64) : Run Result := do
  let column ← ctx.target.arch.checkReg reg
  return .register column

/-- Goes on `offset` bytes away, inside the program or at its end. -/
def branch (ctx : Context) (offset : UInt64) : Run Unit := do
  let machine ← get
  let next := machine.pos + offset
  if next < ctx.start ∨ ctx.stop < next then
    throw (.invalidArgument .branchOutside)
  else
    set { machine with pos := next }

/-- The number of `size` bytes at the address on top of the stack. -/
def derefSize (ctx : Context) (size : Nat) : Run Unit := do
  if size = 0 ∨ ctx.target.arch.addressSize < size then
    throw (.invalidArgument .derefSize)
  else
    let addr ← pop
    let value ← Action.answer (ctx.target.readUInt size) addr
    push ctx value

/-- An operation on the topmost cell. -/
def unary (ctx : Context) (op : UnaryOp) : Run Unit := do
  let a ← pop
  push ctx (op.apply ctx.target.arch.wordBits a)

/-- An operation on the two topmost cells. -/
def binary (ctx : Context) (op : BinaryOp) : Run Unit := do
  let b ← pop
  let a ← pop
  let value ← op.apply ctx.target.arch.wordBits a b
  push ctx value

def constant (ctx : Context) (scan : Scan UInt64) : Run Unit := do
  push ctx (← operand scan)

/-- An operation that does not end the expression. -/
def stackOperation (ctx : Context) (opcode : UInt8) : Run Unit :=
  let target := ctx.target
  match opcode with
  | 0x03 => constant ctx target.readTargetWord
  | 0x06 => do
      let addr ← pop
      let word ← target.readWord addr
      push ctx word
  | 0x08 => constant ctx (UInt8.toUInt64 <$> target.readU8)
  | 0x09 => constant ctx ((signExtend 8 ∘ UInt8.toUInt64) <$> target.readU8)
  | 0x0a => constant ctx (target.readUInt 2)
  | 0x0b => constant ctx (signExtend 16 <$> target.readUInt 2)
  | 0x0c => constant ctx (target.readUInt 4)
  | 0x0d => constant ctx (signExtend 32 <$> target.readUInt 4)
  | 0x0e => constant ctx (target.readUInt 8)
  | 0x0f => constant ctx (target.readUInt 8)
  | 0x10 => constant ctx target.readULeb128
  | 0x11 => constant ctx (Int64.toUInt64 <$> target.readSLeb128)
  | 0x12 => copyCell ctx 0
  | 0x13 => do
      let _ ← pop
  | 0x14 => copyCell ctx 1
  | 0x15 => do
      let index ← operand target.readU8
      copyCell ctx index.toNat
  | 0x16 => do
      let a ← pop
      let b ← pop
      push ctx a
      push ctx b
  | 0x17 => do
      let a ← pop
      let b ← pop
      let c ← pop
      push ctx a
      push ctx c
      push ctx b
  | 0x23 => do
      let a ← pop
      let b ← operand target.readULeb128
      push ctx (a + b)
  | 0x28 => do
      let offset ← operand (signExtend 16 <$> target.readUInt 2)
      let condition ← pop
      if condition ≠ 0 then
        branch ctx offset
  | 0x2f => do
      let offset ← operand (signExtend 16 <$> target.readUInt 2)
      branch ctx offset
  | 0x92 => do
      let reg ← operand target.readULeb128
      let offset ← operand target.readSLeb128
      pushRegister ctx reg offset
  | 0x94 => do
      let size ← operand target.readU8
      derefSize ctx size.toNat
  | 0x96 => pure ()
  | _ =>
      match BinaryOp.ofOpcode? opcode, UnaryOp.ofOpcode? opcode with
      | some op, _ => binary ctx op
      | none, some op => unary ctx op
      | none, none =>
          if 0x30 ≤ opcode ∧ opcode ≤ 0x4f then
            push ctx (opcode - 0x30).toUInt64
          else if 0x70 ≤ opcode ∧ opcode ≤ 0x8f then do
            let offset ← operand target.readSLeb128
            pushRegister ctx (opcode - 0x70).toUInt64 offset
          else
            throw (.invalidArgument .expressionOpcode)

/-- One operation; the answer is there when it ends the expression. -/
def operation (ctx : Context) : Run (Option Result) := do
  let opcode ← operand ctx.target.readU8
  if 0x50 ≤ opcode ∧ opcode ≤ 0x6f then
    some <$> nameRegister ctx (opcode - 0x50).toUInt64
  else if opcode = 0x90 then
    let reg ← operand ctx.target.readULeb128
    some <$> nameRegister ctx reg
  else if opcode = 0x9f then
    let value ← pop
    return some (.value value)
  else
    stackOperation ctx opcode
    return none

/-- Runs operations up to the end of the program, at most `budget` of them.
The cell on top is then the address. -/
def runOperations (ctx : Context) : Nat → Run Result
  | 0 => do
      if (← get).pos < ctx.stop then
        throw (.invalidArgument .expressionEndless)
      else
        return .address (← pop)
  | budget + 1 => do
      if (← get).pos < ctx.stop then
        match ← operation ctx with
        | some result => return result
        | none => runOperations ctx budget
      else
        return .address (← pop)

/-- One past a program of `length` bytes at `start`. -/
def programEnd (start length : UInt64) : Except UnwindError UInt64 :=
  match checkedAdd start length with
  | some stop => .ok stop
  | none => .error (.invalidArgument .expressionTooLong)

/-- Evaluates the expression at an address, with `first` on the stack. -/
def evaluate (target : Target) (locs : Column → Location) (addr : UInt64)
    (first : Option UInt64) : Except UnwindError Result :=
  match target.readULeb128 addr with
  | .error e _ => .error e
  | .ok length start => do
      let stop ← programEnd start length
      let ctx : Context := ⟨target, locs, start, stop⟩
      let run : Run Result := do
        if let some word := first then
          push ctx word
        runOperations ctx maxOperations
      run.answer ⟨start, []⟩

end StackWalk.Expression
