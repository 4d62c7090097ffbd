import Mathlib.Tactic
import StackWalk.Heuristic.FramePointer
import StackWalk.Heuristic.LinkRegister
import StackWalk.Heuristic.PltStub
import StackWalk.Heuristic.SignalFrame
import StackWalk.Proofs.Action

/-!
# What the heuristics find

Each heuristic finds a caller under its own conditions and declines otherwise.
The caller is made of the frame and of what was read for it, and there is one
way to make it.
-/

namespace StackWalk.Heuristic

variable {target : Target} {frame : Frame} {unwound : Unwound}

/-- The frame that a signal interrupted, by the context the kernel left. -/
def SignalFrame.caller (arch : Arch) (frame : Frame) (layout : SignalLayout) (sp cfa : UInt64) :
    Unwound where
  cfa := cfa
  locs := savedLocations arch (sp + layout.contextOffset) frame.locs layout.registers
  ipColumn := arch.ip
  method := .signalFrame
  exactIp := true
  raSigned := false

theorem SignalFrame.step_eq_some_iff :
    SignalFrame.step target frame = .ok (some unwound) ↔
      ∃ layout sp cfa, layoutAt target frame.ip = some layout ∧
        (frame.locs.of target.arch.sp).read target target.arch.sp = .ok sp ∧
        ((SignalFrame.caller target.arch frame layout sp cfa).locs.of target.arch.sp).read target
          target.arch.sp = .ok cfa ∧
        unwound = SignalFrame.caller target.arch frame layout sp cfa := by
  unfold SignalFrame.step
  constructor
  · intro h
    split at h
    · cases h
    · rename_i layout hlayout
      obtain ⟨sp, hsp, h⟩ := bind_eq_ok_iff.mp h
      obtain ⟨cfa, hcfa, hunwound⟩ := bind_eq_ok_iff.mp h
      cases hunwound
      exact ⟨layout, sp, cfa, hlayout, hsp, hcfa, rfl⟩
  · rintro ⟨layout, sp, cfa, hlayout, hsp, hcfa, rfl⟩
    unfold SignalFrame.caller at hcfa
    rw [hlayout]
    dsimp only
    rw [hsp, ok_bind, hcfa]
    rfl

namespace FramePointer

/-- The caller by a record of two words at `fp`. -/
def caller (arch : Arch) (frame : Frame) (fpReg : Column) (fp slot cfa : UInt64) : Unwound where
  cfa := cfa
  locs := ((frame.locs.put fpReg (.memory fp false)).put arch.returnAddress
    (.memory slot false)).put arch.sp (.value cfa)
  ipColumn := arch.returnAddress
  method := .framePointer
  exactIp := false
  raSigned := false

/-- The frame pointer points at a record, the return address in `slot`. -/
structure AtRecord (target : Target) (frame : Frame) (fpReg : Column) (fp slot cfa : UInt64) :
    Prop where
  column : target.arch.fp = some fpReg
  pointer : (frame.locs.of fpReg).read target fpReg = .ok fp
  nonzero : fp ≠ 0
  aligned : fp % target.arch.wordSize = 0
  slot_eq : inRecord target.arch fp target.arch.wordSize = some slot
  cfa_eq : inRecord target.arch fp (2 * target.arch.wordSize) = some cfa
  stored : ∃ word, target.readWord slot = .ok word

theorem readIfKept_eq_some_iff {loc : Location} {reg : Column} {value : UInt64} :
    readIfKept loc target reg = .ok (some value) ↔ loc.read target reg = .ok value := by
  unfold readIfKept
  split <;> simp [*]

theorem ofRecord_eq_some_iff {fpReg : Column} {fp : UInt64} :
    ofRecord target frame fpReg fp = .ok (some unwound) ↔
      ∃ slot cfa, inRecord target.arch fp target.arch.wordSize = some slot ∧
        inRecord target.arch fp (2 * target.arch.wordSize) = some cfa ∧
        (∃ word, target.readWord slot = .ok word) ∧
        unwound = caller target.arch frame fpReg fp slot cfa := by
  unfold ofRecord
  dsimp only
  constructor
  · intro h
    split at h
    · rename_i slot cfa hslot hcfa
      obtain ⟨word, hword, hunwound⟩ := bind_eq_ok_iff.mp h
      cases hunwound
      exact ⟨slot, cfa, hslot, hcfa, ⟨word, hword⟩, rfl⟩
    · cases h
  · rintro ⟨slot, cfa, hslot, hcfa, ⟨word, hword⟩, rfl⟩
    rw [hslot, hcfa]
    dsimp only
    rw [hword]
    rfl

theorem step_eq_some_iff :
    step target frame = .ok (some unwound) ↔
      ∃ fpReg fp slot cfa, AtRecord target frame fpReg fp slot cfa ∧
        unwound = caller target.arch frame fpReg fp slot cfa := by
  unfold step
  constructor
  · intro h
    split at h
    · cases h
    · rename_i fpReg hcolumn
      obtain ⟨kept, hkept, h⟩ := bind_eq_ok_iff.mp h
      cases kept with
      | none => cases h
      | some fp =>
          dsimp only at h
          split at h
          · cases h
          · rename_i hnonzero
            split at h
            · cases h
            · rename_i haligned
              obtain ⟨slot, cfa, hslot, hcfa, hstored, hunwound⟩ := ofRecord_eq_some_iff.mp h
              exact ⟨fpReg, fp, slot, cfa, ⟨hcolumn, readIfKept_eq_some_iff.mp hkept, hnonzero,
                not_not.mp haligned, hslot, hcfa, hstored⟩, hunwound⟩
  · rintro ⟨fpReg, fp, slot, cfa, hrecord, rfl⟩
    rw [hrecord.column]
    dsimp only
    rw [readIfKept_eq_some_iff.mpr hrecord.pointer, ok_bind]
    dsimp only
    rw [if_neg hrecord.nonzero, if_neg (not_not.mpr hrecord.aligned)]
    exact ofRecord_eq_some_iff.mpr
      ⟨slot, cfa, hrecord.slot_eq, hrecord.cfa_eq, hrecord.stored, rfl⟩

end FramePointer

/-- The caller of a linkage stub, with the return address at the stack
pointer. -/
def PltStub.caller (arch : Arch) (frame : Frame) (sp : UInt64) : Unwound where
  cfa := (sp + arch.wordSize) &&& arch.wordMask
  locs := (frame.locs.put arch.returnAddress (.memory sp false)).put arch.sp
    (.value ((sp + arch.wordSize) &&& arch.wordMask))
  ipColumn := arch.returnAddress
  method := .plt
  exactIp := false
  raSigned := false

theorem PltStub.step_eq_some_iff :
    PltStub.step target frame = .ok (some unwound) ↔
      ∃ pattern sp, target.arch.pltEntry = some pattern ∧
        target.codeMatches frame.ip pattern = true ∧
        (frame.locs.of target.arch.sp).read target target.arch.sp = .ok sp ∧
        unwound = PltStub.caller target.arch frame sp := by
  unfold PltStub.step
  dsimp only
  constructor
  · intro h
    split at h
    · cases h
    · rename_i pattern hpattern
      obtain ⟨sp, hsp, hunwound⟩ := bind_eq_ok_iff.mp h
      cases hunwound
      obtain ⟨hentry, hmatches⟩ := Option.filter_eq_some_iff.mp hpattern
      exact ⟨pattern, sp, hentry, hmatches, hsp, rfl⟩
  · rintro ⟨pattern, sp, hentry, hmatches, hsp, rfl⟩
    rw [Option.filter_eq_some_iff.mpr ⟨hentry, hmatches⟩, hsp]
    rfl

/-- The caller of a function that has done nothing. -/
def LinkRegister.caller (arch : Arch) (frame : Frame) (lr : Column) (cfa : UInt64) :
    Unwound where
  cfa := cfa
  locs := frame.locs.put arch.sp (.value cfa)
  ipColumn := lr
  method := .linkRegister
  exactIp := false
  raSigned := false

theorem LinkRegister.step_eq_some_iff :
    LinkRegister.step target frame = .ok (some unwound) ↔
      ∃ lr cfa, target.arch.lr = some lr ∧ (frame.locs.of lr).isLost = false ∧
        (frame.locs.of target.arch.sp).read target target.arch.sp = .ok cfa ∧
        unwound = LinkRegister.caller target.arch frame lr cfa := by
  unfold LinkRegister.step
  dsimp only
  constructor
  · intro h
    split at h
    · cases h
    · rename_i lr hlr
      obtain ⟨cfa, hcfa, hunwound⟩ := bind_eq_ok_iff.mp h
      cases hunwound
      obtain ⟨hcolumn, hkept⟩ := Option.filter_eq_some_iff.mp hlr
      exact ⟨lr, cfa, hcolumn, by simpa using hkept, hcfa, rfl⟩
  · rintro ⟨lr, cfa, hcolumn, hkept, hcfa, rfl⟩
    rw [Option.filter_eq_some_iff.mpr ⟨hcolumn, by simpa using hkept⟩, hcfa]
    rfl

end StackWalk.Heuristic
