import StackWalk.Proofs.Cfi.ProgramErrors
import StackWalk.Proofs.Cursor.Finding
import StackWalk.Proofs.Cursor.Rules
import StackWalk.Proofs.Expression.Errors

/-!
# What a step fails with

Only the search for the rules of a frame can say that an address has no unwind
information.  Whatever else goes wrong in a step, in a heuristic or with the
caller's instruction pointer, is another error.
-/

namespace StackWalk

open UnwindError

/-! ## Heuristics -/

namespace Heuristic

variable {target : Target} (htarget : target.FailsPlainly) {frame : Frame} {e : UnwindError}

include htarget

theorem SignalFrame.step_hasInfo (h : SignalFrame.step target frame = .error e) : e.HasInfo := by
  unfold SignalFrame.step at h
  split at h
  · cases h
  · rcases bind_eq_error_iff.mp h with hsp | ⟨sp, -, h⟩
    · exact Location.read_hasInfo htarget hsp
    · rcases bind_eq_error_iff.mp h with hcfa | ⟨cfa, -, ⟨⟩⟩
      exact Location.read_hasInfo htarget hcfa

theorem PltStub.step_hasInfo (h : PltStub.step target frame = .error e) : e.HasInfo := by
  unfold PltStub.step at h
  dsimp only at h
  split at h
  · cases h
  · rcases bind_eq_error_iff.mp h with hsp | ⟨sp, -, ⟨⟩⟩
    exact Location.read_hasInfo htarget hsp

theorem FramePointer.ofRecord_hasInfo {fpReg : Column} {fp : UInt64}
    (h : FramePointer.ofRecord target frame fpReg fp = .error e) : e.HasInfo := by
  unfold FramePointer.ofRecord at h
  dsimp only at h
  split at h
  · rcases bind_eq_error_iff.mp h with hslot | ⟨word, -, ⟨⟩⟩
    exact Target.readWord_hasInfo htarget hslot
  · cases h

theorem FramePointer.step_hasInfo (h : FramePointer.step target frame = .error e) :
    e.HasInfo := by
  unfold FramePointer.step at h
  split at h
  · cases h
  · rcases bind_eq_error_iff.mp h with hread | ⟨kept, -, h⟩
    · unfold FramePointer.readIfKept at hread
      split at hread
      · cases hread
      · cases hread
      · rename_i hfailed
        cases hread
        exact Location.read_hasInfo htarget hfailed
    · cases kept with
      | none => cases h
      | some fp =>
          dsimp only at h
          split at h
          · cases h
            trivial
          · split at h
            · cases h
            · exact ofRecord_hasInfo htarget h

theorem LinkRegister.step_hasInfo (h : LinkRegister.step target frame = .error e) :
    e.HasInfo := by
  unfold LinkRegister.step at h
  dsimp only at h
  split at h
  · cases h
  · rcases bind_eq_error_iff.mp h with hcfa | ⟨cfa, -, ⟨⟩⟩
    exact Location.read_hasInfo htarget hcfa

end Heuristic

namespace Walk

variable {World Thread : Type}

theorem unwindByHeuristics_hasInfo {target : Target} (htarget : target.FailsPlainly)
    {frame : Frame} {reason e : UnwindError} (hreason : reason.HasInfo)
    (h : unwindByHeuristics target frame reason = .error e) : e.HasInfo := by
  rcases bind_eq_error_iff.mp h with hplt | ⟨plt, -, h⟩
  · exact Heuristic.PltStub.step_hasInfo htarget hplt
  · cases plt with
    | some found => cases h
    | none =>
        rcases bind_eq_error_iff.mp h with hrecord | ⟨record, -, h⟩
        · exact Heuristic.FramePointer.step_hasInfo htarget hrecord
        · cases record with
          | some found => cases h
          | none =>
              rcases bind_eq_error_iff.mp h with hlink | ⟨link, -, h⟩
              · exact Heuristic.LinkRegister.step_hasInfo htarget hlink
              · cases link with
                | some found => cases h
                | none =>
                    cases h
                    exact hreason

theorem callerIp_hasInfo {target : Target} (htarget : target.FailsPlainly)
    {cursor : Cursor Thread} {unwound : Unwound} {e : UnwindError}
    (h : callerIp target cursor unwound = .error e) : e.HasInfo := by
  unfold callerIp at h
  dsimp only at h
  split at h
  · cases h
  · rcases bind_eq_error_iff.mp h with hread | ⟨stored, -, h⟩
    · exact Location.read_hasInfo htarget hread
    · generalize (if unwound.raSigned then _ else stored : UInt64) = ip at h
      split at h
      · cases h
      · split at h
        · cases h
          trivial
        · split at h <;> cases h
          trivial

variable {space : AddressSpace World Thread}
  (hspace : ∀ world thread validate, (space.target world thread validate).FailsPlainly)
  {walk after : Walk World Thread} {e : UnwindError}

include hspace

theorem unwindByRules_hasInfo
    (hrules : ∀ e after, frameRules space walk = .error e after → e.HasInfo)
    (h : unwindByRules space walk = .error e after) : e.HasInfo := by
  cases hfound : frameRules space walk with
  | error e' between =>
      rw [unwindByRules_of_failed hfound] at h
      cases h
      exact hrules _ _ hfound
  | ok found between =>
      obtain ⟨script, info⟩ := found
      rw [unwindByRules_of_found hfound] at h
      cases happlied : applyRules (between.target space) between.cursor.locs script.cfa
          script.rules with
      | ok caller =>
          rw [happlied] at h
          cases h
      | error e' =>
          rw [happlied] at h
          cases h
          exact applyRules_hasInfo (hspace _ _ _) happlied

theorem unwindFrame_hasInfo
    (hrules : ∀ e after, frameRules space walk = .error e after → e.HasInfo)
    (h : unwindFrame space walk = .error e after) : e.HasInfo := by
  cases hsignal : Heuristic.SignalFrame.step (walk.target space) walk.cursor.frame with
  | error e' =>
      rw [unwindFrame_of_signal_failed hsignal] at h
      cases h
      exact Heuristic.SignalFrame.step_hasInfo (hspace _ _ _) hsignal
  | ok found =>
      cases found with
      | some unwound =>
          rw [unwindFrame_of_signal hsignal] at h
          cases h
      | none =>
          cases hunwound : unwindByRules space walk with
          | ok unwound between =>
              rw [unwindFrame_of_rules hsignal hunwound] at h
              cases h
          | error reason between =>
              have hreason := unwindByRules_hasInfo hspace hrules hunwound
              rw [unwindFrame_of_rules_failed hsignal hunwound, Action.lift_eq_error_iff] at h
              obtain ⟨hfailed, rfl⟩ := h
              split at hfailed
              · exact unwindByHeuristics_hasInfo (hspace _ _ _) hreason hfailed
              · cases hfailed
                exact hreason

/-- A step that fails says that there is no unwind information only if the
search for the rules of the frame does. -/
theorem step_hasInfo
    (hrules : ∀ e after, frameRules space walk = .error e after → e.HasInfo)
    (h : step space walk = .error e after) : e.HasInfo := by
  unfold step at h
  rw [Action.bind_apply, Action.attempt_apply] at h
  cases hunwound : unwindFrame space walk with
  | error e' between =>
      rw [hunwound] at h
      cases e' <;> cases h <;> exact unwindFrame_hasInfo hspace hrules hunwound
  | ok unwound between =>
      simp only [hunwound] at h
      rw [Action.get_bind_apply] at h
      cases hcaller : callerIp (between.target space) between.cursor unwound with
      | error e' =>
          rw [hcaller, Action.lift_error_bind_apply] at h
          cases h
          exact callerIp_hasInfo (hspace _ _ _) hcaller
      | ok ip =>
          rw [hcaller, Action.lift_ok_bind_apply] at h
          cases ip <;> cases h

end Walk
end StackWalk
