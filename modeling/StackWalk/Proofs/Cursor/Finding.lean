import StackWalk.Proofs.Cursor.Heuristics
import StackWalk.Proofs.Cursor.Searching

/-!
# Finding the caller

The caller is found as a signal handler's interrupted frame, by the rules of
the frame, or by a heuristic.  `Finds` lists the three ways with what each of
them reads.  Only the rules of the frame can say that the return address is
signed.
-/

namespace StackWalk

variable {World Thread : Type}

/-- Whether a method goes by the rules of the frame. -/
def StepMethod.byRules : StepMethod → Bool
  | .cfi | .dynamic => true
  | .signalFrame | .plt | .framePointer | .linkRegister => false

/-- Found without the rules of the frame, which alone can say that the return
address is signed. -/
def Unwound.Guessed (unwound : Unwound) : Prop :=
  unwound.raSigned = false ∧ unwound.method.byRules = false

/-! ## Heuristics -/

namespace Heuristic

variable {target : Target} {frame : Frame} {unwound : Unwound}

theorem SignalFrame.step_guessed
    (h : SignalFrame.step target frame = .ok (some unwound)) : unwound.Guessed := by
  obtain ⟨layout, sp, cfa, -, -, -, rfl⟩ := SignalFrame.step_eq_some_iff.mp h
  exact ⟨rfl, rfl⟩

theorem PltStub.step_guessed
    (h : PltStub.step target frame = .ok (some unwound)) : unwound.Guessed := by
  obtain ⟨pattern, sp, -, -, -, rfl⟩ := PltStub.step_eq_some_iff.mp h
  exact ⟨rfl, rfl⟩

theorem FramePointer.step_guessed
    (h : FramePointer.step target frame = .ok (some unwound)) : unwound.Guessed := by
  obtain ⟨fpReg, fp, slot, cfa, -, rfl⟩ := FramePointer.step_eq_some_iff.mp h
  exact ⟨rfl, rfl⟩

theorem LinkRegister.step_guessed
    (h : LinkRegister.step target frame = .ok (some unwound)) : unwound.Guessed := by
  obtain ⟨lr, cfa, -, -, -, rfl⟩ := LinkRegister.step_eq_some_iff.mp h
  exact ⟨rfl, rfl⟩

end Heuristic

/-- The caller is that of one of the heuristics. -/
theorem Walk.unwindByHeuristics_cases {target : Target} {frame : Frame} {reason : UnwindError}
    {unwound : Unwound} (h : unwindByHeuristics target frame reason = .ok unwound) :
    Heuristic.PltStub.step target frame = .ok (some unwound) ∨
      Heuristic.FramePointer.step target frame = .ok (some unwound) ∨
      Heuristic.LinkRegister.step target frame = .ok (some unwound) := by
  unfold unwindByHeuristics at h
  obtain ⟨plt, hplt, h⟩ := bind_eq_ok_iff.mp h
  cases plt with
  | some found =>
      cases h
      exact Or.inl hplt
  | none =>
      obtain ⟨record, hrecord, h⟩ := bind_eq_ok_iff.mp h
      cases record with
      | some found =>
          cases h
          exact Or.inr (Or.inl hrecord)
      | none =>
          obtain ⟨link, hlink, h⟩ := bind_eq_ok_iff.mp h
          cases link with
          | some found =>
              cases h
              exact Or.inr (Or.inr hlink)
          | none => cases h

theorem Walk.unwindByHeuristics_guessed {target : Target} {frame : Frame} {reason : UnwindError}
    {unwound : Unwound} (h : unwindByHeuristics target frame reason = .ok unwound) :
    unwound.Guessed := by
  rcases unwindByHeuristics_cases h with hplt | hrecord | hlink
  · exact Heuristic.PltStub.step_guessed hplt
  · exact Heuristic.FramePointer.step_guessed hrecord
  · exact Heuristic.LinkRegister.step_guessed hlink

namespace Walk

variable {space : AddressSpace World Thread} {walk : Walk World Thread}

/-! ## The three ways -/

/-- The caller that the rules of a frame and their application describe. -/
def callerByRules (script : Script) (info : ProcInfo) (cfa : UInt64) (locs : Locations) :
    Unwound where
  cfa := cfa
  locs := locs
  ipColumn := script.returnAddress
  method :=
    match info.unwindInfo with
    | .dynamic _ => .dynamic
    | _ => .cfi
  exactIp := script.signalFrame
  raSigned := script.raSigned

/-- The caller that a walk finds, and the walk once it has. -/
inductive Finds (space : AddressSpace World Thread) (walk : Walk World Thread) :
    Unwound → Walk World Thread → Prop
  | signal {unwound : Unwound}
      (hsignal : Heuristic.SignalFrame.step (walk.target space) walk.cursor.frame =
        .ok (some unwound)) :
      Finds space walk unwound walk
  | rules {script : Script} {info : ProcInfo} {cfa : UInt64} {locs : Locations}
      {between : Walk World Thread}
      (hrules : frameRules space walk = .ok (script, info) between)
      (happlied : applyRules (between.target space) between.cursor.locs script.cfa
        script.rules = .ok (cfa, locs)) :
      Finds space walk (callerByRules script info cfa locs) between
  | heuristics {reason : UnwindError} {unwound : Unwound} {between : Walk World Thread}
      (hfailed : unwindByRules space walk = .error reason between)
      (hguessed : unwindByHeuristics (between.target space) between.cursor.frame reason =
        .ok unwound) :
      Finds space walk unwound between

theorem unwindByRules_of_failed {e : UnwindError} {between : Walk World Thread}
    (h : frameRules space walk = .error e between) :
    unwindByRules space walk = .error e between :=
  Action.bind_eq_of_error h _

theorem unwindByRules_of_found {script : Script} {info : ProcInfo}
    {between : Walk World Thread}
    (h : frameRules space walk = .ok (script, info) between) :
    unwindByRules space walk =
      match applyRules (between.target space) between.cursor.locs script.cfa script.rules with
      | .ok (cfa, locs) => .ok (callerByRules script info cfa locs) between
      | .error e => .error e between := by
  unfold unwindByRules
  rw [Action.bind_eq_of_ok h]
  simp only [Action.get_bind_apply]
  cases applyRules (between.target space) between.cursor.locs script.cfa script.rules <;> rfl

theorem finds_of_unwindByRules {unwound : Unwound} {between : Walk World Thread}
    (h : unwindByRules space walk = .ok unwound between) :
    Finds space walk unwound between := by
  cases hrules : frameRules space walk with
  | error e next =>
      rw [unwindByRules_of_failed hrules] at h
      cases h
  | ok found next =>
      obtain ⟨script, info⟩ := found
      rw [unwindByRules_of_found hrules] at h
      cases happlied : applyRules (next.target space) next.cursor.locs script.cfa
          script.rules with
      | error e =>
          rw [happlied] at h
          cases h
      | ok applied =>
          rw [happlied] at h
          cases h
          exact .rules hrules happlied

/-- The rules of a frame only use the workspace and the hint, and the frame is
as it was when they fail. -/
theorem frame_of_unwindByRules_error {e : UnwindError} {between : Walk World Thread}
    (h : unwindByRules space walk = .error e between) :
    between.cursor.frame = walk.cursor.frame := by
  obtain ⟨hint, workspace, hcursor⟩ := (unwindByRules_searched.of_error h).cursor
  rw [hcursor]
  rfl

theorem unwindFrame_of_signal {unwound : Unwound}
    (h : Heuristic.SignalFrame.step (walk.target space) walk.cursor.frame =
      .ok (some unwound)) :
    unwindFrame space walk = .ok unwound walk := by
  unfold unwindFrame
  rw [Action.get_bind_apply, h]
  rfl

theorem unwindFrame_of_signal_failed {e : UnwindError}
    (h : Heuristic.SignalFrame.step (walk.target space) walk.cursor.frame = .error e) :
    unwindFrame space walk = .error e walk := by
  unfold unwindFrame
  rw [Action.get_bind_apply, h]
  rfl

section Plain

variable (hplain : Heuristic.SignalFrame.step (walk.target space) walk.cursor.frame = .ok none)

include hplain

theorem unwindFrame_of_rules {unwound : Unwound} {between : Walk World Thread}
    (h : unwindByRules space walk = .ok unwound between) :
    unwindFrame space walk = .ok unwound between := by
  unfold unwindFrame
  rw [Action.get_bind_apply, hplain, Action.lift_ok_bind_apply]
  dsimp only
  rw [Action.bind_apply, Action.attempt_apply, h]
  rfl

/-- Where the rules of the frame are of no use, the heuristics answer or nothing
else does. -/
theorem unwindFrame_of_rules_failed {e : UnwindError} {between : Walk World Thread}
    (h : unwindByRules space walk = .error e between) :
    unwindFrame space walk =
      (liftM (if e.allowsFallback then
        unwindByHeuristics (between.target space) between.cursor.frame e
      else .error e) : Action (Walk World Thread) Unwound) between := by
  unfold unwindFrame
  rw [Action.get_bind_apply, hplain, Action.lift_ok_bind_apply]
  dsimp only
  rw [Action.bind_apply, Action.attempt_apply, h]
  dsimp only
  split <;> rfl

end Plain

theorem finds_of_unwindFrame {unwound : Unwound} {between : Walk World Thread}
    (h : unwindFrame space walk = .ok unwound between) :
    Finds space walk unwound between := by
  cases hsignal : Heuristic.SignalFrame.step (walk.target space) walk.cursor.frame with
  | error e =>
      rw [unwindFrame_of_signal_failed hsignal] at h
      cases h
  | ok found =>
      cases found with
      | some unwound =>
          rw [unwindFrame_of_signal hsignal] at h
          cases h
          exact .signal hsignal
      | none =>
          cases hrules : unwindByRules space walk with
          | ok unwound next =>
              rw [unwindFrame_of_rules hsignal hrules] at h
              cases h
              exact finds_of_unwindByRules hrules
          | error reason next =>
              rw [unwindFrame_of_rules_failed hsignal hrules, Action.lift_eq_ok_iff] at h
              obtain ⟨hguessed, rfl⟩ := h
              split at hguessed
              · exact .heuristics hrules hguessed
              · cases hguessed

theorem Finds.raSigned_iff {unwound : Unwound} {between : Walk World Thread}
    (h : Finds space walk unwound between) :
    unwound.raSigned = true ↔
      unwound.method.byRules = true ∧
        ∃ script info, frameRules space walk = .ok (script, info) between ∧
          script.raSigned = true := by
  have hguess : unwound.Guessed → (unwound.raSigned = true ↔
      unwound.method.byRules = true ∧
        ∃ script info, frameRules space walk = .ok (script, info) between ∧
          script.raSigned = true) := by
    rintro ⟨hsigned, hmethod⟩
    simp [hsigned, hmethod]
  cases h with
  | signal hsignal => exact hguess (Heuristic.SignalFrame.step_guessed hsignal)
  | heuristics _ hguessed => exact hguess (unwindByHeuristics_guessed hguessed)
  | @rules script info cfa locs between hrules _ =>
      have hmethod : (callerByRules script info cfa locs).method.byRules = true := by
        unfold callerByRules
        cases info.unwindInfo <;> rfl
      constructor
      · intro hsigned
        exact ⟨hmethod, script, info, hrules, hsigned⟩
      · rintro ⟨-, other, info', hother, hsigned⟩
        rw [hrules] at hother
        cases hother
        exact hsigned

end Walk
end StackWalk
