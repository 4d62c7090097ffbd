import StackWalk.Hex

/-!
# What can go wrong while a stack is unwound

An `UnwindError` names the cause of a failed operation.  Each cause has a
text and a negative result code; two causes may share a code.  The causes
that only say that the unwind data is of no use here let a heuristic take
over, all others end the step.
-/

namespace StackWalk

/-- A store of fixed size that ran out of room. -/
inductive Pool where
  | ruleSnapshots
  | labeledStates
  | expressionStack
  | other (name : String)
  deriving DecidableEq, Repr

def Pool.describe : Pool → String
  | .ruleSnapshots => "rule snapshot stack"
  | .labeledStates => "labeled states"
  | .expressionStack => "expression stack"
  | .other name => name

/-- What makes unwind data or an argument malformed. -/
inductive Defect where
  | pointerFormat
  | pointerApplication
  | noTextBase
  | alignedWithFormat
  | restoreWithoutRemember
  | unknownLabel
  | blockOverrunsProgram
  | reservedCfaOpcode
  | cfaRegisterOnExpression
  | cfaOffsetOnExpression
  | noRegisterWindows
  | stackUnderflow
  | expressionTooLong
  | expressionEndless
  | derefSize
  | divisionByZero
  | branchOutside
  | expressionOpcode
  | emptyEntry
  | entryTooLong
  | entryTooShort
  | augmentationTooLong
  | notACie
  | notAnFde
  | cieAddressSize
  | zeroCodeAlignment
  | zeroDataAlignment
  | cieDataOverruns
  | unknownAugmentation
  | cieOverruns
  | fdeDataOverruns
  | fdeOverruns
  | fdeEmptyRange
  | tableNotFixedSize
  | tableTooLong
  | regionEmptyRange
  | regionOverlaps
  | other (text : String)
  deriving DecidableEq, Repr

def Defect.describe : Defect → String
  | .pointerFormat => "invalid pointer value format"
  | .pointerApplication => "invalid pointer application"
  | .noTextBase => "textrel pointer without text base"
  | .alignedWithFormat => "aligned pointer with a value format"
  | .restoreWithoutRemember => "restore_state without remember_state"
  | .unknownLabel => "copy_state of unknown label"
  | .blockOverrunsProgram => "expression block overruns program"
  | .reservedCfaOpcode => "reserved CFA opcode"
  | .cfaRegisterOnExpression => "def_cfa_register on expression CFA"
  | .cfaOffsetOnExpression => "def_cfa_offset on expression CFA"
  | .noRegisterWindows => "DW_CFA_GNU_window_save on a target without register windows"
  | .stackUnderflow => "expression stack underflow"
  | .expressionTooLong => "expression length overflows"
  | .expressionEndless => "expression does not terminate"
  | .derefSize => "bad DW_OP_deref_size"
  | .divisionByZero => "division by zero"
  | .branchOutside => "branch out of expression"
  | .expressionOpcode => "unsupported DWARF expression op"
  | .emptyEntry => "zero-length CFI entry"
  | .entryTooLong => "CFI entry length overflows"
  | .entryTooShort => "CFI entry shorter than its header"
  | .augmentationTooLong => "augmentation string too long"
  | .notACie => "expected a CIE"
  | .notAnFde => "expected an FDE, found a CIE"
  | .cieAddressSize => "CIE address size differs from target"
  | .zeroCodeAlignment => "zero code alignment factor"
  | .zeroDataAlignment => "zero data alignment factor"
  | .cieDataOverruns => "augmentation data overruns CIE"
  | .unknownAugmentation => "unknown augmentation without 'z'"
  | .cieOverruns => "CIE header overruns entry"
  | .fdeDataOverruns => "augmentation data overruns FDE"
  | .fdeOverruns => "FDE header overruns entry"
  | .fdeEmptyRange => "FDE covers an empty range"
  | .tableNotFixedSize => "eh_frame_hdr table entries are not fixed-size"
  | .tableTooLong => "eh_frame_hdr table does not fit in the address space"
  | .regionEmptyRange => "dynamic region covers an empty range"
  | .regionOverlaps => "dynamic region overlaps a registered one"
  | .other text => text

/-- The cause of a failed unwind operation. -/
inductive UnwindError where
  /-- A store of fixed size is full. -/
  | outOfMemory (pool : Pool)
  /-- A register number outside the register file, or a register whose value
  cannot be recovered in this frame. -/
  | badRegister (reg : UInt64)
  | readOnlyRegister (reg : Nat)
  /-- The unwind data says that there is no caller.  Not a failure. -/
  | stopUnwind
  | invalidIp (ip : UInt64)
  /-- A step that would not change the pair of instruction pointer and CFA. -/
  | badFrame
  | invalidArgument (defect : Defect)
  | badVersion (version : UInt8)
  | noInfo (ip : UInt64)
  | unreadable (addr : UInt64)
  deriving DecidableEq, Repr

namespace UnwindError

def kind : UnwindError → String
  | outOfMemory _ => "OutOfMemory"
  | badRegister _ => "BadRegister"
  | readOnlyRegister _ => "ReadOnlyRegister"
  | stopUnwind => "StopUnwind"
  | invalidIp _ => "InvalidIp"
  | badFrame => "BadFrame"
  | invalidArgument _ => "InvalidArgument"
  | badVersion _ => "BadVersion"
  | noInfo _ => "NoInfo"
  | unreadable _ => "Unreadable"

/-- The error of a kind, with the number and the text that such an error
carries. -/
def ofKind (kind : String) (value : UInt64) (text : String) : UnwindError :=
  match kind with
  | "OutOfMemory" => outOfMemory (.other text)
  | "BadRegister" => badRegister value
  | "ReadOnlyRegister" => readOnlyRegister value.toNat
  | "StopUnwind" => stopUnwind
  | "InvalidIp" => invalidIp value
  | "BadFrame" => badFrame
  | "InvalidArgument" => invalidArgument (.other text)
  | "BadVersion" => badVersion value.toUInt8
  | "NoInfo" => noInfo value
  | _ => unreadable value

/-- The text shown to a user, with addresses written by `showAddress`. -/
def messageWith (showAddress : UInt64 → String) : UnwindError → String
  | outOfMemory pool => "out of memory: " ++ pool.describe ++ " exhausted"
  | badRegister reg => "bad register number " ++ toString reg.toNat
  | readOnlyRegister reg => "register " ++ toString reg ++ " is read-only in this frame"
  | stopUnwind => "stop unwinding"
  | invalidIp ip => "invalid instruction pointer " ++ showAddress ip
  | badFrame => "bad frame: step did not advance"
  | invalidArgument defect => "invalid argument: " ++ defect.describe
  | badVersion version => "unsupported CIE version " ++ toString version.toNat
  | noInfo ip => "no unwind info covers " ++ showAddress ip
  | unreadable addr => "cannot access memory at " ++ showAddress addr

def message (e : UnwindError) : String :=
  e.messageWith fun addr => hex addr.toNat

/-- The negative result code.  The value `-1` is left to callers. -/
def code : UnwindError → Int
  | outOfMemory _ => -2
  | badRegister _ => -3
  | readOnlyRegister _ => -4
  | stopUnwind => -5
  | invalidIp _ => -6
  | badFrame => -7
  | invalidArgument _ => -8
  | unreadable _ => -8
  | badVersion _ => -9
  | noInfo _ => -10

/-- Whether a heuristic may look for the caller after the unwind data failed
with this error. -/
def allowsFallback : UnwindError → Bool
  | noInfo _ => true
  | invalidArgument _ => true
  | badVersion _ => true
  | badRegister _ => true
  | outOfMemory _ => true
  | _ => false

end UnwindError
end StackWalk
