import StackWalk.Pointer

/-!
# Call frame instructions

The program of an entry is a list of instructions.  The two high bits of an
opcode are zero, or name one of the three instructions that keep an operand in
the low six.  A program is decoded until its range is used up or an
instruction cannot be read; what was decoded before stays valid.
-/

namespace StackWalk.Cfi

/-- Where the operand of an advance is kept. -/
inductive AdvanceForm where
  | packed
  | one
  | two
  | four
  deriving DecidableEq, Repr

/-- Where the register of an instruction is kept. -/
inductive RegisterForm where
  | packed
  | extended
  deriving DecidableEq, Repr

/-- A call frame instruction.  Factored offsets are multiplied by the data
alignment factor, deltas by the code alignment factor. -/
inductive Instruction where
  | setLoc (addr : UInt64)
  | advanceLoc (form : AdvanceForm) (delta : UInt64)
  | defCfa (reg offset : UInt64)
  | defCfaFactored (reg : UInt64) (factored : Int64)
  | defCfaRegister (reg : UInt64)
  | defCfaOffset (offset : UInt64)
  | defCfaOffsetFactored (factored : Int64)
  | defCfaExpression (addr : UInt64)
  | undefined (reg : UInt64)
  | sameValue (reg : UInt64)
  | offset (form : RegisterForm) (reg factored : UInt64)
  | offsetSigned (reg : UInt64) (factored : Int64)
  | valOffset (reg factored : UInt64)
  | valOffsetSigned (reg : UInt64) (factored : Int64)
  | register (reg source : UInt64)
  | expression (reg addr : UInt64)
  | valExpression (reg addr : UInt64)
  | restore (form : RegisterForm) (reg : UInt64)
  | rememberState
  | restoreState
  | windowSave
  | argsSize (size : UInt64)
  | negativeOffset (reg factored : UInt64)
  | nop
  deriving DecidableEq, Repr

/-- An operand as it is shown. -/
inductive Operand where
  | word (value : UInt64)
  | signed (value : Int64)
  deriving DecidableEq, Repr

namespace Instruction

def parts : Instruction → String × List Operand
  | setLoc addr => ("SetLoc", [.word addr])
  | advanceLoc .packed delta => ("AdvanceLoc", [.word delta])
  | advanceLoc .one delta => ("AdvanceLoc1", [.word delta])
  | advanceLoc .two delta => ("AdvanceLoc2", [.word delta])
  | advanceLoc .four delta => ("AdvanceLoc4", [.word delta])
  | defCfa reg amount => ("DefCfa", [.word reg, .word amount])
  | defCfaFactored reg factored => ("DefCfaSf", [.word reg, .signed factored])
  | defCfaRegister reg => ("DefCfaRegister", [.word reg])
  | defCfaOffset amount => ("DefCfaOffset", [.word amount])
  | defCfaOffsetFactored factored => ("DefCfaOffsetSf", [.signed factored])
  | defCfaExpression addr => ("DefCfaExpression", [.word addr])
  | undefined reg => ("Undefined", [.word reg])
  | sameValue reg => ("SameValue", [.word reg])
  | offset .packed reg factored => ("Offset", [.word reg, .word factored])
  | offset .extended reg factored => ("OffsetExtended", [.word reg, .word factored])
  | offsetSigned reg factored => ("OffsetExtendedSf", [.word reg, .signed factored])
  | valOffset reg factored => ("ValOffset", [.word reg, .word factored])
  | valOffsetSigned reg factored => ("ValOffsetSf", [.word reg, .signed factored])
  | register reg source => ("Register", [.word reg, .word source])
  | expression reg addr => ("Expression", [.word reg, .word addr])
  | valExpression reg addr => ("ValExpression", [.word reg, .word addr])
  | restore .packed reg => ("Restore", [.word reg])
  | restore .extended reg => ("RestoreExtended", [.word reg])
  | rememberState => ("RememberState", [])
  | restoreState => ("RestoreState", [])
  | windowSave => ("GnuWindowSave", [])
  | argsSize size => ("GnuArgsSize", [.word size])
  | negativeOffset reg factored => ("GnuNegativeOffsetExtended", [.word reg, .word factored])
  | nop => ("Nop", [])

end Instruction

/-! ## Decoding -/

/-- What the instructions of a program are decoded with: the encoding of the
addresses in it, what these are relative to, and where the program ends. -/
structure ProgramContext where
  encoding : PointerEncoding
  bases : PointerBases
  stop : UInt64
  deriving DecidableEq, Repr

/-- One past a block of `length` bytes at `body`, which has to end where the
program does, or before. -/
def blockEnd (stop body length : UInt64) : Except UnwindError UInt64 :=
  match checkedAdd body length with
  | some next =>
      if next ≤ stop then
        .ok next
      else
        .error (.invalidArgument .blockOverrunsProgram)
  | none =>
      .error (.invalidArgument .blockOverrunsProgram)

/-- Steps over an expression with its length in front, and answers its
address. -/
def readBlock (target : Target) (stop : UInt64) : Scan UInt64 := do
  let start ← get
  let length ← target.readULeb128
  let body ← get
  let next ← blockEnd stop body length
  set next
  return start

def withOperand {α : Type} (operand : Scan α) (build : α → Instruction) : Scan Instruction :=
  build <$> operand

/-- Two operands, one after the other. -/
def withOperands {α β : Type} (first : Scan α) (second : Scan β)
    (build : α → β → Instruction) : Scan Instruction := do
  let a ← first
  let b ← second
  return build a b

/-- The instruction of an opcode whose two high bits are zero. -/
def decodeExtended (target : Target) (ctx : ProgramContext) (opcode : UInt8) :
    Scan Instruction :=
  match opcode with
  | 0x00 => pure .nop
  | 0x01 => withOperand (target.readPointer ctx.encoding ctx.bases) .setLoc
  | 0x02 => withOperand target.readU8 fun delta => .advanceLoc .one delta.toUInt64
  | 0x03 => withOperand (target.readUInt 2) (.advanceLoc .two)
  | 0x04 => withOperand (target.readUInt 4) (.advanceLoc .four)
  | 0x05 => withOperands target.readULeb128 target.readULeb128 (.offset .extended)
  | 0x06 => withOperand target.readULeb128 (.restore .extended)
  | 0x07 => withOperand target.readULeb128 .undefined
  | 0x08 => withOperand target.readULeb128 .sameValue
  | 0x09 => withOperands target.readULeb128 target.readULeb128 .register
  | 0x0a => pure .rememberState
  | 0x0b => pure .restoreState
  | 0x0c => withOperands target.readULeb128 target.readULeb128 .defCfa
  | 0x0d => withOperand target.readULeb128 .defCfaRegister
  | 0x0e => withOperand target.readULeb128 .defCfaOffset
  | 0x0f => withOperand (readBlock target ctx.stop) .defCfaExpression
  | 0x10 => withOperands target.readULeb128 (readBlock target ctx.stop) .expression
  | 0x11 => withOperands target.readULeb128 target.readSLeb128 .offsetSigned
  | 0x12 => withOperands target.readULeb128 target.readSLeb128 .defCfaFactored
  | 0x13 => withOperand target.readSLeb128 .defCfaOffsetFactored
  | 0x14 => withOperands target.readULeb128 target.readULeb128 .valOffset
  | 0x15 => withOperands target.readULeb128 target.readSLeb128 .valOffsetSigned
  | 0x16 => withOperands target.readULeb128 (readBlock target ctx.stop) .valExpression
  | 0x2d => pure .windowSave
  | 0x2e => withOperand target.readULeb128 .argsSize
  | 0x2f => withOperands target.readULeb128 target.readULeb128 .negativeOffset
  | _ => throw (.invalidArgument .reservedCfaOpcode)

def decodeOperands (target : Target) (ctx : ProgramContext) (opcode : UInt8) :
    Scan Instruction :=
  let low := (opcode &&& 0x3f).toUInt64
  match opcode >>> 6 with
  | 1 => pure (.advanceLoc .packed low)
  | 2 => withOperand target.readULeb128 (.offset .packed low)
  | 3 => pure (.restore .packed low)
  | _ => decodeExtended target ctx opcode

def decode (target : Target) (ctx : ProgramContext) : Scan Instruction := do
  let opcode ← target.readU8
  decodeOperands target ctx opcode

theorem blockEnd_eq_ok {stop body length next : UInt64}
    (h : blockEnd stop body length = .ok next) :
    next.toNat = body.toNat + length.toNat ∧ next ≤ stop := by
  unfold blockEnd at h
  split at h
  · rename_i n hn
    split at h
    · rename_i hle
      cases h
      exact ⟨toNat_checkedAdd hn, hle⟩
    · cases h
  · cases h

theorem readBlock_movesForward (target : Target) (stop : UInt64) :
    (readBlock target stop).MovesForward := by
  intro pos
  refine .bind .get ?_
  rintro _ _ ⟨rfl, rfl⟩
  refine .bind (target.readULeb128_movesForward _) fun length body hbody => .bind .get ?_
  rintro _ _ ⟨rfl, rfl⟩
  refine .bind .ofExcept ?_
  rintro next _ ⟨hend, rfl⟩
  refine .bind .set ?_
  rintro _ _ rfl
  have hnext := (blockEnd_eq_ok hend).1
  exact .pure (by omega)

theorem withOperand_movesForward {α : Type} {operand : Scan α} {build : α → Instruction}
    (h : operand.MovesForward) : (withOperand operand build).MovesForward :=
  .map _ h

theorem withOperands_movesForward {α β : Type} {first : Scan α} {second : Scan β}
    {build : α → β → Instruction} (hfirst : first.MovesForward)
    (hsecond : second.MovesForward) : (withOperands first second build).MovesForward :=
  .bind hfirst fun _ => .bind hsecond fun _ => .pure _

theorem decodeExtended_movesForward (target : Target) (ctx : ProgramContext) (opcode : UInt8) :
    (decodeExtended target ctx opcode).MovesForward := by
  have uleb := target.readULeb128_movesForward
  have sleb := target.readSLeb128_movesForward
  have block := readBlock_movesForward target ctx.stop
  unfold decodeExtended
  split
  case h_2 => exact withOperand_movesForward (target.readPointer_movesForward _ _)
  case h_3 => exact withOperand_movesForward target.readU8_movesForward
  case h_4 => exact withOperand_movesForward (target.readUInt_movesForward 2)
  case h_5 => exact withOperand_movesForward (target.readUInt_movesForward 4)
  case h_27 => exact .throw _
  all_goals
    first
      | exact .pure _
      | exact withOperand_movesForward (by assumption)
      | exact withOperands_movesForward (by assumption) (by assumption)

theorem decodeOperands_movesForward (target : Target) (ctx : ProgramContext) (opcode : UInt8) :
    (decodeOperands target ctx opcode).MovesForward := by
  unfold decodeOperands
  split
  · exact .pure _
  · exact withOperand_movesForward target.readULeb128_movesForward
  · exact .pure _
  · exact decodeExtended_movesForward target ctx opcode

/-- An instruction is at least one byte long. -/
theorem decode_advances {target : Target} {ctx : ProgramContext} {pos next : UInt64}
    {instruction : Instruction} (h : decode target ctx pos = .ok instruction next) :
    pos.toNat < next.toNat := by
  change EStateM.bind _ _ _ = _ at h
  unfold EStateM.bind at h
  split at h
  · rename_i opcode body hopcode
    have := (Target.readU8_eq_ok hopcode).1
    have := decodeOperands_movesForward target ctx opcode _ _ _ h
    omega
  · cases h

/-- The instructions from `pos` to the end of the program, and in last place
the error if one cannot be read. -/
def listing (target : Target) (ctx : ProgramContext) (pos : UInt64) :
    List (Except UnwindError Instruction) :=
  if pos < ctx.stop then
    match _hdecode : decode target ctx pos with
    | .ok instruction next => .ok instruction :: listing target ctx next
    | .error e _ => [.error e]
  else
    []
termination_by UInt64.size - pos.toNat
decreasing_by
  have := decode_advances _hdecode
  have := next.toNat_lt_size
  omega

end StackWalk.Cfi
