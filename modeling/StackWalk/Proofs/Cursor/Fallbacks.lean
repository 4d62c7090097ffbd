import StackWalk.Arch.Shipped
import StackWalk.Proofs.Cursor.CodePatterns

/-!
# Falling back on the heuristics

Where the unwind data of a frame is of no use, the heuristics are asked in
turn, and the first that does not decline decides.  One that needs a register
which is lost has nothing to go by.  The chain of frame pointers declines then;
a linkage stub and the link register fail where the stack pointer is lost, and
what comes after them is not asked.
-/

namespace StackWalk

variable {World Thread : Type}

namespace Heuristic

variable {target : Target} {frame : Frame} {reason : UnwindError}

/-- The outcome of the first attempt that does not decline, or the reason to
make any. -/
def firstFound (reason : UnwindError) :
    List (Except UnwindError (Option Unwound)) → Except UnwindError Unwound
  | [] => .error reason
  | .ok none :: rest => firstFound reason rest
  | .ok (some unwound) :: _ => .ok unwound
  | .error e :: _ => .error e

/-- An attempt that declines where a register it needs is lost. -/
def unlessLost (locs : Locations) (needed : List Column)
    (attempt : Except UnwindError (Option Unwound)) : Except UnwindError (Option Unwound) :=
  if needed.any fun reg => (locs.of reg).isLost then .ok none else attempt

/-- The heuristics in their order, each declining where a register it needs is
lost. -/
def declining (target : Target) (frame : Frame) : List (Except UnwindError (Option Unwound)) :=
  [unlessLost frame.locs [target.arch.sp] (PltStub.step target frame),
    unlessLost frame.locs target.arch.fp.toList (FramePointer.step target frame),
    unlessLost frame.locs (target.arch.lr.toList ++ [target.arch.sp])
      (LinkRegister.step target frame)]

/-- The architecture has a link register, and the frame still knows it. -/
def LinkRegister.isKept (arch : Arch) (locs : Locations) : Bool :=
  arch.lr.any fun lr => !(locs.of lr).isLost

/-- The stack pointer is lost, and a heuristic that reads it is asked: the code
is a stub, or the frame pointer leads nowhere and there is a link register. -/
structure Blocked (target : Target) (frame : Frame) : Prop where
  lost : frame.locs.of target.arch.sp = .lost
  asked : PltStub.isAt target frame.ip = true ∨
    FramePointer.step target frame = .ok none ∧
      LinkRegister.isKept target.arch frame.locs = true

theorem isLost_iff {loc : Location} : loc.isLost = true ↔ loc = .lost := by
  cases loc <;> simp [Location.isLost]

/-! ## Heuristics and lost registers -/

theorem PltStub.step_of_lost (h : frame.locs.of target.arch.sp = .lost) :
    PltStub.step target frame =
      if PltStub.isAt target frame.ip = true then
        .error (.badRegister (UInt64.ofNat target.arch.sp))
      else
        .ok none := by
  by_cases hstub : PltStub.isAt target frame.ip = true
  · have hpattern : (target.arch.pltEntry.filter fun pattern =>
        target.codeMatches frame.ip pattern).isSome = true :=
      Option.isSome_filter.trans hstub
    obtain ⟨pattern, hpattern⟩ := Option.isSome_iff_exists.mp hpattern
    unfold PltStub.step
    simp only [if_pos hstub, hpattern, h]
    rfl
  · rw [if_neg hstub]
    exact (PltStub.step_declines_iff frame).mpr (Bool.eq_false_iff.mpr hstub)

theorem FramePointer.step_of_lost
    (h : (target.arch.fp.toList.any fun reg => (frame.locs.of reg).isLost) = true) :
    FramePointer.step target frame = .ok none := by
  unfold FramePointer.step
  cases hfp : target.arch.fp with
  | none => rfl
  | some fpReg =>
      have hlost : frame.locs.of fpReg = .lost := by
        simpa [hfp, isLost_iff] using h
      simp only [hlost]
      rfl

theorem LinkRegister.step_of_not_kept
    (h : LinkRegister.isKept target.arch frame.locs = false) :
    LinkRegister.step target frame = .ok none := by
  have hlr : (target.arch.lr.filter fun lr => !(frame.locs.of lr).isLost) = none := by
    rw [← Option.not_isSome_iff_eq_none, Option.isSome_filter]
    exact Bool.eq_false_iff.mp h
  unfold LinkRegister.step
  simp only [hlr]
  rfl

theorem LinkRegister.step_of_lost (h : frame.locs.of target.arch.sp = .lost)
    (hkept : LinkRegister.isKept target.arch frame.locs = true) :
    LinkRegister.step target frame =
      .error (.badRegister (UInt64.ofNat target.arch.sp)) := by
  obtain ⟨lr, hlr⟩ : ∃ lr,
      (target.arch.lr.filter fun lr => !(frame.locs.of lr).isLost) = some lr :=
    Option.isSome_iff_exists.mp (Option.isSome_filter.trans hkept)
  unfold LinkRegister.step
  simp only [hlr, h]
  rfl

/-! ## One after the other -/

theorem unwindByHeuristics_eq (target : Target) (frame : Frame) (reason : UnwindError) :
    Walk.unwindByHeuristics target frame reason =
      firstFound reason [PltStub.step target frame, FramePointer.step target frame,
        LinkRegister.step target frame] := by
  unfold Walk.unwindByHeuristics
  rcases PltStub.step target frame with e | _ | unwound <;> try rfl
  rcases FramePointer.step target frame with e | _ | unwound <;> try rfl
  rcases LinkRegister.step target frame with e | _ | unwound <;> rfl

theorem framePointer_unlessLost (target : Target) (frame : Frame) :
    unlessLost frame.locs target.arch.fp.toList (FramePointer.step target frame) =
      FramePointer.step target frame := by
  unfold unlessLost
  split
  case isTrue h => exact (FramePointer.step_of_lost h).symm
  case isFalse => rfl

/-- Unless one of them is blocked, the heuristics decline where they should. -/
theorem unwindByHeuristics_of_not_blocked (h : ¬Blocked target frame) :
    Walk.unwindByHeuristics target frame reason = firstFound reason (declining target frame) := by
  rw [unwindByHeuristics_eq, declining, framePointer_unlessLost]
  by_cases hsp : frame.locs.of target.arch.sp = .lost
  · have hstub : ¬PltStub.isAt target frame.ip = true := fun hstub => h ⟨hsp, .inl hstub⟩
    have hplt : PltStub.step target frame = .ok none := by
      rw [PltStub.step_of_lost hsp, if_neg hstub]
    have hspLost : (frame.locs.of target.arch.sp).isLost = true := isLost_iff.mpr hsp
    simp only [unlessLost, hplt, List.any_append, List.any_cons, List.any_nil, hspLost,
      Bool.or_false, Bool.or_true, if_true, firstFound]
    rcases hrecord : FramePointer.step target frame with e | _ | unwound
    · rfl
    · have hlr : ¬LinkRegister.isKept target.arch frame.locs = true :=
        fun hlr => h ⟨hsp, .inr ⟨hrecord, hlr⟩⟩
      rw [LinkRegister.step_of_not_kept (Bool.eq_false_iff.mpr hlr)]
    · rfl
  · have hspKept : (frame.locs.of target.arch.sp).isLost = false :=
      Bool.eq_false_iff.mpr fun hlost => hsp (isLost_iff.mp hlost)
    have hlink : unlessLost frame.locs (target.arch.lr.toList ++ [target.arch.sp])
        (LinkRegister.step target frame) = LinkRegister.step target frame := by
      unfold unlessLost
      split
      case isFalse => rfl
      case isTrue hlost =>
        refine (LinkRegister.step_of_not_kept ?_).symm
        unfold LinkRegister.isKept
        cases hlr : target.arch.lr <;> simp_all
    rw [hlink]
    simp only [unlessLost, List.any_cons, List.any_nil, hspKept, Bool.or_false,
      Bool.false_eq_true, if_false]

theorem unwindByHeuristics_of_blocked (h : Blocked target frame) :
    Walk.unwindByHeuristics target frame reason =
      .error (.badRegister (UInt64.ofNat target.arch.sp)) := by
  rw [unwindByHeuristics_eq, PltStub.step_of_lost h.lost]
  by_cases hstub : PltStub.isAt target frame.ip = true
  · rw [if_pos hstub]
    rfl
  · obtain ⟨hrecord, hlr⟩ := h.asked.resolve_left hstub
    rw [if_neg hstub, hrecord, LinkRegister.step_of_lost h.lost hlr]
    rfl

end Heuristic

namespace Walk

open Heuristic

variable {space : AddressSpace World Thread} {walk after : Walk World Thread} {e : UnwindError}

/-- What a step makes of the caller that it found or of why it found none. -/
def conclude (space : AddressSpace World Thread) :
    Except UnwindError Unwound → Action (Walk World Thread) Bool
  | .error .stopUnwind => return false
  | .error e => throw e
  | .ok unwound => do
      let walk ← get
      match ← callerIp (walk.target space) walk.cursor unwound with
      | none =>
          return false
      | some ip =>
          modifyCursor fun cursor => commit space.arch cursor unwound ip
          return true

theorem step_eq_conclude (space : AddressSpace World Thread) :
    step space = Action.attempt (unwindFrame space) >>= conclude space :=
  rfl

theorem step_of_answer {answer : Except UnwindError Unwound}
    (h : unwindFrame space walk = (liftM answer : Action (Walk World Thread) Unwound) after) :
    step space walk = conclude space answer after := by
  rw [step_eq_conclude, Action.bind_apply, Action.attempt_apply, h]
  cases answer <;> rfl

/-- Why the unwind data of a frame may be of no use, so that the heuristics are
asked. -/
def fallbackKinds : List String :=
  ["NoInfo", "InvalidArgument", "BadVersion", "BadRegister", "OutOfMemory"]

theorem allowsFallback_iff : e.allowsFallback = true ↔ e.kind ∈ fallbackKinds := by
  cases e <;> simp [UnwindError.allowsFallback, UnwindError.kind, fallbackKinds]

/-- Outside of trampolines, where the rules of a frame fail, the step concludes
from the first heuristic that does not decline, or from why the rules failed,
when that is a reason to fall back, and from why they failed otherwise.  A
heuristic declines where it needs a register that is lost, except that a stub,
or a link register that comes to be asked, needs the stack pointer and fails
without it. -/
theorem step_falls_back
    (hplain : SignalFrame.isTrampoline (walk.target space) walk.cursor.ip = false)
    (hrules : unwindByRules space walk = .error e after) :
    (e.kind ∈ fallbackKinds →
      (¬Blocked (after.target space) walk.cursor.frame →
        step space walk =
          conclude space (firstFound e (declining (after.target space) walk.cursor.frame))
            after) ∧
      (Blocked (after.target space) walk.cursor.frame →
        step space walk = .error (.badRegister (UInt64.ofNat space.arch.sp)) after)) ∧
    (e.kind ∉ fallbackKinds → step space walk = conclude space (.error e) after) := by
  have hframe :=
    unwindFrame_of_rules_failed ((SignalFrame.step_declines_iff _).mpr hplain) hrules
  rw [frame_of_unwindByRules_error hrules] at hframe
  rw [← allowsFallback_iff]
  refine ⟨fun hallowed => ⟨fun hfree => ?_, fun hblocked => ?_⟩, fun hrefused => ?_⟩
  · rw [if_pos hallowed, unwindByHeuristics_of_not_blocked hfree] at hframe
    exact step_of_answer hframe
  · rw [if_pos hallowed, unwindByHeuristics_of_blocked hblocked] at hframe
    exact step_of_answer hframe
  · rw [if_neg hrefused] at hframe
    exact step_of_answer hframe

/-- The words that are mapped: a shared entry whose row gives the stack pointer
up, the description of the function at `0x1000`, a stub at `0x5000`, and a
stack with a record of frame pointers at `0x9000`. -/
def stubWords : List (UInt64 × UInt64) :=
  [(0x100, 0x14), (0x108, 0x0110780100527a01), (0x110, 0x0707019008070c00),
    (0x118, 0x1c0000001c), (0x120, 0x1000), (0x128, 0x1000), (0x130, 0),
    (0x5000, 0x11684433221125ff), (0x5008, 0x44332211e9443322), (0x8000, 0x5000),
    (0x9000, 0xa000), (0x9008, 0x6000)]

/-- A function that is called from a linkage stub.  The world is where the
thread stands. -/
def stubSpace : AddressSpace UInt64 Unit where
  arch := .x86_64
  loadWord _ _ addr :=
    match stubWords.lookup addr with
    | some word => .ok word
    | none => .error (.unreadable addr)
  storeWord _ addr _ := throw (.unreadable addr)
  loadReg ip _ reg := .ok (if reg = 16 then ip else if reg = 6 then 0x9000 else 0x8000)
  storeReg _ reg _ := throw (.readOnlyRegister reg)
  loadFpReg _ _ reg := .error (.badRegister (UInt64.ofNat reg))
  storeFpReg _ reg _ := throw (.readOnlyRegister reg)
  findProc world _ ip :=
    if 0x1000 ≤ ip ∧ ip < 0x2000 then
      ⟨.ok { start := 0x1000, stop := 0x2000, unwindInfo := .dwarf 0x118 .ehFrame }, world, 0⟩
    else
      ⟨.error (.noInfo ip), world, 0⟩
  releaseProc world _ _ := world
  procName _ _ ip _ := .error (.noInfo ip)
  probe _ _ _ := .ok ()

/-- In the caller of the function at `0x1000`. -/
def stubWalk : Walk UInt64 Unit :=
  ((step stubSpace).perform (freshWalk 0x1000)).2

/-- A walk once the rules of its frame were asked. -/
def rulesAsked (walk : Walk UInt64 Unit) : Walk UInt64 Unit :=
  ((unwindByRules stubSpace).perform walk).2

theorem rules_failed {walk : Walk UInt64 Unit} {e : UnwindError}
    (h : (unwindByRules stubSpace).answer walk = .error e) :
    unwindByRules stubSpace walk = .error e (rulesAsked walk) := by
  obtain ⟨after, hrun⟩ := Action.answer_eq_error_iff.mp h
  unfold rulesAsked Action.perform
  rw [hrun]

/-- Begun in the stub the stack pointer is there, and the stub is left by it.
In the caller it is lost. -/
theorem step_falls_back_stub :
    step stubSpace (freshWalk 0x5000) =
        conclude stubSpace
          (firstFound (.noInfo 0x5000)
            (declining ((rulesAsked (freshWalk 0x5000)).target stubSpace)
              (freshWalk 0x5000).cursor.frame))
          (rulesAsked (freshWalk 0x5000)) ∧
      step stubSpace stubWalk = .error (.badRegister 7) (rulesAsked stubWalk) := by
  have hfresh : (unwindByRules stubSpace).answer (freshWalk 0x5000) = .error (.noInfo 0x5000) := by
    decide +kernel
  have hcaller : (unwindByRules stubSpace).answer stubWalk = .error (.noInfo 0x4fff) := by
    decide +kernel
  constructor
  · refine ((step_falls_back (by decide +kernel) (rules_failed hfresh)).1 (by decide)).1 ?_
    rintro ⟨hlost, -⟩
    revert hlost
    decide +kernel
  · refine ((step_falls_back (by decide +kernel) (rules_failed hcaller)).1 (by decide)).2 ?_
    exact ⟨by decide +kernel, .inl (by decide +kernel)⟩

/-- The stub fails on the lost stack pointer.  Were it to decline, the step would
go on by the record at the frame pointer. -/
theorem stub_hides_record :
    Cursor.make stubSpace 0x1000 () = .ok (freshWalk 0x1000).cursor ∧
      (step stubSpace).answer (freshWalk 0x1000) = .ok true ∧
      SignalFrame.isTrampoline (stubWalk.target stubSpace) stubWalk.cursor.ip = false ∧
      (unwindByRules stubSpace).answer stubWalk = .error (.noInfo 0x4fff) ∧
      (step stubSpace).answer stubWalk = .error (.badRegister 7) ∧
      (conclude stubSpace
        (firstFound (.noInfo 0x4fff)
          (declining ((rulesAsked stubWalk).target stubSpace) stubWalk.cursor.frame))).answer
        (rulesAsked stubWalk) = .ok true := by
  refine ⟨rfl, ?_, ?_, ?_, ?_, ?_⟩
  all_goals decide +kernel

end Walk
end StackWalk
