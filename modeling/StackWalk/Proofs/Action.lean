import Mathlib.Tactic
import StackWalk.Action

/-!
# Actions run on a state

The monad operations applied to a state, as equations.  Rewriting with them
turns a block of statements into the nested case distinctions it stands for,
and no later proof has to open the monad.
-/

namespace StackWalk

variable {State α β : Type}

@[simp] theorem pure_eq_ok (a : α) : (pure a : Except UnwindError α) = .ok a := rfl

@[simp] theorem throw_eq_error (e : UnwindError) :
    (throw e : Except UnwindError α) = .error e := rfl

@[simp] theorem ok_bind (a : α) (f : α → Except UnwindError β) :
    ((.ok a : Except UnwindError α) >>= f) = f a := rfl

@[simp] theorem error_bind (e : UnwindError) (f : α → Except UnwindError β) :
    ((.error e : Except UnwindError α) >>= f) = .error e := rfl

theorem bind_eq_ok_iff {answer : Except UnwindError α} {f : α → Except UnwindError β} {b : β} :
    answer >>= f = .ok b ↔ ∃ a, answer = .ok a ∧ f a = .ok b := by
  cases answer <;> simp

theorem bind_eq_error_iff {answer : Except UnwindError α} {f : α → Except UnwindError β}
    {e : UnwindError} :
    answer >>= f = .error e ↔ answer = .error e ∨ ∃ a, answer = .ok a ∧ f a = .error e := by
  cases answer <;> simp

theorem bind_congr_of_ok {answer : Except UnwindError α} {f g : α → Except UnwindError β}
    (h : ∀ a, answer = .ok a → f a = g a) : answer >>= f = answer >>= g := by
  cases answer with
  | ok a => exact h a rfl
  | error e => rfl

theorem map_eq_ok_iff {answer : Except UnwindError α} {f : α → β} {b : β} :
    answer.map f = .ok b ↔ ∃ a, answer = .ok a ∧ f a = b := by
  cases answer <;> simp [Except.map]

namespace Action

@[simp] theorem pure_apply (a : α) (state : State) :
    (pure a : Action State α) state = .ok a state := rfl

theorem bind_apply (action : Action State α) (f : α → Action State β) (state : State) :
    (action >>= f) state =
      match action state with
      | .ok a next => f a next
      | .error e next => .error e next := by
  change EStateM.bind action f state = _
  unfold EStateM.bind
  cases action state <;> rfl

theorem bind_eq_of_ok {action : Action State α} {state next : State} {a : α}
    (h : action state = .ok a next) (f : α → Action State β) :
    (action >>= f) state = f a next := by
  rw [bind_apply, h]

theorem bind_eq_of_error {action : Action State α} {state next : State} {e : UnwindError}
    (h : action state = .error e next) (f : α → Action State β) :
    (action >>= f) state = .error e next := by
  rw [bind_apply, h]

theorem ok_of_bind {action : Action State α} {f : α → Action State β} {state after : State} {b : β}
    (h : (action >>= f) state = .ok b after) :
    ∃ a next, action state = .ok a next ∧ f a next = .ok b after := by
  rw [bind_apply] at h
  split at h
  · exact ⟨_, _, ‹_›, h⟩
  · cases h

theorem map_apply (f : α → β) (action : Action State α) (state : State) :
    (f <$> action) state =
      match action state with
      | .ok a next => .ok (f a) next
      | .error e next => .error e next := by
  change EStateM.map f action state = _
  unfold EStateM.map
  cases action state <;> rfl

@[simp] theorem get_bind_apply (f : State → Action State β) (state : State) :
    (get >>= f) state = f state state := rfl

@[simp] theorem set_apply (state next : State) :
    (set next : Action State PUnit) state = .ok ⟨⟩ next := rfl

@[simp] theorem set_bind_apply (next : State) (f : PUnit → Action State β) (state : State) :
    (set next >>= f) state = f ⟨⟩ next := rfl

@[simp] theorem modify_bind_apply (change : State → State) (f : PUnit → Action State β)
    (state : State) :
    (modify change >>= f) state = f ⟨⟩ (change state) := rfl

@[simp] theorem throw_apply (e : UnwindError) (state : State) :
    (throw e : Action State α) state = .error e state := rfl

@[simp] theorem lift_ok_bind_apply (a : α) (f : α → Action State β) (state : State) :
    ((liftM (.ok a : Except UnwindError α) : Action State α) >>= f) state = f a state := rfl

@[simp] theorem lift_error_bind_apply (e : UnwindError) (f : α → Action State β)
    (state : State) :
    ((liftM (.error e : Except UnwindError α) : Action State α) >>= f) state =
      .error e state := rfl

theorem lift_eq_ok_iff {given : Except UnwindError α} {state after : State} {a : α} :
    (liftM given : Action State α) state = .ok a after ↔ given = .ok a ∧ state = after := by
  cases given with
  | ok b => exact ⟨fun h => by cases h; exact ⟨rfl, rfl⟩, by rintro ⟨⟨⟩, rfl⟩; rfl⟩
  | error e => exact ⟨nofun, nofun⟩

theorem lift_eq_error_iff {given : Except UnwindError α} {state after : State}
    {e : UnwindError} :
    (liftM given : Action State α) state = .error e after ↔ given = .error e ∧ state = after := by
  cases given with
  | ok b => exact ⟨nofun, nofun⟩
  | error e => exact ⟨fun h => by cases h; exact ⟨rfl, rfl⟩, by rintro ⟨⟨⟩, rfl⟩; rfl⟩

theorem lift_bind_apply_eq_ok_iff {given : Except UnwindError α} {f : α → Action State β}
    {state after : State} {b : β} :
    ((liftM given : Action State α) >>= f) state = .ok b after ↔
      ∃ a, given = .ok a ∧ f a state = .ok b after := by
  cases given with
  | ok a => simp
  | error e => simp

theorem answer_eq_ok_iff {action : Action State α} {state : State} {a : α} :
    action.answer state = .ok a ↔ ∃ after, action state = .ok a after := by
  constructor
  · exact answer_eq_ok
  · rintro ⟨after, hrun⟩
    rw [answer, perform, hrun]

theorem answer_eq_error_iff {action : Action State α} {state : State} {e : UnwindError} :
    action.answer state = .error e ↔ ∃ after, action state = .error e after := by
  unfold answer perform
  cases action state <;> simp

theorem attempt_apply (action : Action State α) (state : State) :
    attempt action state =
      match action state with
      | .ok a after => .ok (.ok a) after
      | .error e after => .ok (.error e) after := rfl

theorem perform_bind_pure (action : Action State α) (f : α → β) (state : State) :
    (action >>= fun a => pure (f a)).perform state =
      ((action.perform state).1.map f, (action.perform state).2) := by
  unfold perform
  rw [bind_apply]
  cases action state <;> rfl

/-! ## What an action leaves behind, failed or not -/

/-- However the action ends, the state it leaves is related to the one it
began in. -/
def Keeps (R : State → State → Prop) (action : Action State α) : Prop :=
  ∀ state, R state (action.perform state).2

namespace Keeps

variable {R : State → State → Prop}

theorem of_ok {action : Action State α} (h : action.Keeps R) {state after : State} {a : α}
    (hrun : action state = .ok a after) : R state after := by
  simpa [perform, hrun] using h state

theorem of_error {action : Action State α} (h : action.Keeps R) {state after : State}
    {e : UnwindError} (hrun : action state = .error e after) : R state after := by
  simpa [perform, hrun] using h state

theorem of_modify {change : State → State} (h : ∀ state, R state (change state)) :
    Keeps R (modify change : Action State PUnit) :=
  h

theorem get_bind {f : State → Action State α}
    (h : ∀ state, R state ((f state).perform state).2) : Keeps R (get >>= f) :=
  h

theorem attempt {action : Action State α} (haction : action.Keeps R) :
    Keeps R (Action.attempt action) := by
  intro state
  unfold perform
  rw [attempt_apply]
  cases hrun : action state with
  | ok a after => exact haction.of_ok hrun
  | error e after => exact haction.of_error hrun

theorem bind_pure {action : Action State α} (haction : action.Keeps R) (f : α → β) :
    Keeps R (action >>= fun a => Pure.pure (f a)) := by
  intro state
  rw [perform_bind_pure]
  exact haction state

theorem lift_bind {given : Except UnwindError α} {f : α → Action State β}
    (hrefl : ∀ state, R state state) (hf : ∀ a, (f a).Keeps R) :
    Keeps R (liftM given >>= f : Action State β) := by
  intro state
  cases given with
  | ok a => exact hf a state
  | error e => exact hrefl state

/-- What relates the states around the first action and around the rest relates
those around both. -/
theorem seq {S T : State → State → Prop} {action : Action State α} {f : α → Action State β}
    (haction : action.Keeps R) (hf : ∀ a, (f a).Keeps S)
    (hstop : ∀ first second, R first second → T first second)
    (hcomp : ∀ first second third, R first second → S second third → T first third) :
    Keeps T (action >>= f) := by
  intro state
  cases hrun : action state with
  | ok a next =>
      have hnext := hf a next
      unfold perform at hnext ⊢
      rw [bind_eq_of_ok hrun]
      exact hcomp _ _ _ (haction.of_ok hrun) hnext
  | error e next =>
      unfold perform
      rw [bind_eq_of_error hrun]
      exact hstop _ _ (haction.of_error hrun)

section Preorder

variable [IsPreorder State R]

theorem pure (a : α) : Keeps R (Pure.pure a : Action State α) :=
  fun state => refl_of R state

theorem throw (e : UnwindError) : Keeps R (MonadExcept.throw e : Action State α) :=
  fun state => refl_of R state

theorem lift (given : Except UnwindError α) : Keeps R (liftM given : Action State α) := by
  intro state
  cases given <;> exact refl_of R state

theorem bind {action : Action State α} {f : α → Action State β} (haction : action.Keeps R)
    (hf : ∀ a, (f a).Keeps R) : Keeps R (action >>= f) :=
  haction.seq hf (fun _ _ h => h) fun _ _ _ => trans_of R

end Preorder

end Keeps

/-! ## What an action cannot tell apart -/

/-- Begun in related states, the action ends the same way and in related
states. -/
def Respects (R : State → State → Prop) (action : Action State α) : Prop :=
  ∀ first second, R first second →
    (action.perform first).1 = (action.perform second).1 ∧
      R (action.perform first).2 (action.perform second).2

namespace Respects

variable {R : State → State → Prop}

theorem pure (a : α) : Respects R (Pure.pure a : Action State α) :=
  fun _ _ h => ⟨rfl, h⟩

theorem throw (e : UnwindError) : Respects R (MonadExcept.throw e : Action State α) :=
  fun _ _ h => ⟨rfl, h⟩

theorem lift (given : Except UnwindError α) : Respects R (liftM given : Action State α) := by
  intro first second h
  cases given <;> exact ⟨rfl, h⟩

theorem of_modify {change : State → State}
    (hchange : ∀ first second, R first second → R (change first) (change second)) :
    Respects R (modify change : Action State PUnit) :=
  fun first second h => ⟨rfl, hchange first second h⟩

theorem get_bind {f : State → Action State α}
    (hsame : ∀ first second, R first second → f first = f second)
    (hf : ∀ state, (f state).Respects R) : Respects R (get >>= f) := by
  intro first second h
  change ((f first).perform first).1 = ((f second).perform second).1 ∧
    R ((f first).perform first).2 ((f second).perform second).2
  rw [hsame first second h]
  exact hf second first second h

theorem bind {action : Action State α} {f : α → Action State β} (haction : action.Respects R)
    (hf : ∀ a, (f a).Respects R) : Respects R (action >>= f) := by
  intro first second h
  obtain ⟨hanswer, hafter⟩ := haction first second h
  unfold perform at hanswer hafter ⊢
  cases hfirst : action first with
  | ok a after =>
      cases hsecond : action second with
      | ok b after' =>
          rw [hfirst, hsecond] at hanswer hafter
          obtain rfl := Except.ok.inj hanswer
          rw [bind_eq_of_ok hfirst, bind_eq_of_ok hsecond]
          exact hf a after after' hafter
      | error e after' =>
          rw [hfirst, hsecond] at hanswer
          cases hanswer
  | error e after =>
      cases hsecond : action second with
      | ok b after' =>
          rw [hfirst, hsecond] at hanswer
          cases hanswer
      | error e' after' =>
          rw [hfirst, hsecond] at hanswer hafter
          obtain rfl := Except.error.inj hanswer
          rw [bind_eq_of_error hfirst, bind_eq_of_error hsecond]
          exact ⟨rfl, hafter⟩

theorem attempt {action : Action State α} (haction : action.Respects R) :
    Respects R (Action.attempt action) := by
  intro first second h
  have hperform : ∀ state, (Action.attempt action).perform state =
      (.ok (action.perform state).1, (action.perform state).2) := by
    intro state
    unfold perform
    rw [attempt_apply]
    cases action state <;> rfl
  obtain ⟨hanswer, hafter⟩ := haction first second h
  rw [hperform, hperform]
  exact ⟨congrArg Except.ok hanswer, hafter⟩

end Respects

/-! ## What an action fails with -/

/-- Wherever it begins, the action fails only with what is allowed. -/
def FailsWith (allowed : UnwindError → Prop) (action : Action State α) : Prop :=
  ∀ state e after, action state = .error e after → allowed e

namespace FailsWith

variable {allowed : UnwindError → Prop}

theorem pure (a : α) : FailsWith allowed (Pure.pure a : Action State α) := by
  rintro state e after ⟨⟩

theorem get : FailsWith allowed (MonadState.get : Action State State) := by
  rintro state e after ⟨⟩

theorem set (next : State) : FailsWith allowed (MonadStateOf.set next : Action State PUnit) := by
  rintro state e after ⟨⟩

theorem throw {e : UnwindError} (h : allowed e) :
    FailsWith allowed (MonadExcept.throw e : Action State α) := by
  rintro state _ after ⟨⟩
  exact h

theorem lift {given : Except UnwindError α} (h : ∀ e, given = .error e → allowed e) :
    FailsWith allowed (liftM given : Action State α) := by
  intro state e after hrun
  cases given with
  | ok a => cases hrun
  | error e =>
      cases hrun
      exact h e rfl

theorem bind {action : Action State α} {f : α → Action State β}
    (haction : action.FailsWith allowed) (hf : ∀ a, (f a).FailsWith allowed) :
    FailsWith allowed (action >>= f) := by
  intro state e after hrun
  rw [bind_apply] at hrun
  split at hrun
  · rename_i a next ha
    exact hf a next e after hrun
  · rename_i e' next ha
    cases hrun
    exact haction state e after ha

theorem map {action : Action State α} (f : α → β) (haction : action.FailsWith allowed) :
    FailsWith allowed (f <$> action) := by
  rw [map_eq_pure_bind]
  exact bind haction fun a => pure (f a)

theorem ite {c : Prop} [Decidable c] {first second : Action State α}
    (hfirst : first.FailsWith allowed) (hsecond : second.FailsWith allowed) :
    FailsWith allowed (if c then first else second) := by
  split
  · exact hfirst
  · exact hsecond

theorem mono {weaker : UnwindError → Prop} {action : Action State α}
    (haction : action.FailsWith allowed) (h : ∀ e, allowed e → weaker e) :
    action.FailsWith weaker :=
  fun state e after hrun => h e (haction state e after hrun)

theorem of_modify (change : State → State) :
    FailsWith allowed (modify change : Action State PUnit) := by
  rintro state e after ⟨⟩

theorem zoom {Whole : Type} {get : Whole → State} {put : State → Whole → Whole}
    {action : Action State α} (haction : action.FailsWith allowed) :
    FailsWith allowed (Action.zoom get put action) := by
  intro whole e after hrun
  unfold Action.zoom at hrun
  split at hrun
  · cases hrun
  · rename_i e' part hpart
    cases hrun
    exact haction _ _ _ hpart

theorem of_answer {action : Action State α} (haction : action.FailsWith allowed) {state : State}
    {e : UnwindError} (h : action.answer state = .error e) : allowed e := by
  obtain ⟨after, hrun⟩ := answer_eq_error_iff.mp h
  exact haction state e after hrun

end FailsWith

/-! ## What changes nothing when it fails -/

/-- Where the action fails, the state is the one it began in. -/
def FailsCleanly (action : Action State α) : Prop :=
  ∀ state e after, action state = .error e after → after = state

namespace FailsCleanly

theorem throw (e : UnwindError) : FailsCleanly (MonadExcept.throw e : Action State α) := by
  rintro state _ after ⟨⟩
  rfl

theorem set (next : State) : FailsCleanly (MonadStateOf.set next : Action State PUnit) := by
  rintro state e after ⟨⟩

theorem of_modify (change : State → State) :
    FailsCleanly (modify change : Action State PUnit) := by
  rintro state e after ⟨⟩

theorem get_bind {f : State → Action State α} (h : ∀ state, (f state).FailsCleanly) :
    FailsCleanly (MonadState.get >>= f) :=
  fun state => h state state

theorem lift_bind {given : Except UnwindError α} {f : α → Action State β}
    (h : ∀ a, (f a).FailsCleanly) : FailsCleanly (liftM given >>= f) := by
  cases given with
  | ok a => exact h a
  | error e =>
      rintro state _ after ⟨⟩
      rfl

theorem ite {c : Prop} [Decidable c] {first second : Action State α}
    (hfirst : first.FailsCleanly) (hsecond : second.FailsCleanly) :
    FailsCleanly (if c then first else second) := by
  split
  · exact hfirst
  · exact hsecond

/-- What cannot fail may follow. -/
theorem bind_of_total {action : Action State α} {f : α → Action State β}
    (haction : action.FailsCleanly) (hf : ∀ a state, ∃ b after, f a state = .ok b after) :
    FailsCleanly (action >>= f) := by
  intro state e after hrun
  rw [bind_apply] at hrun
  split at hrun
  · rename_i a next _
    obtain ⟨b, last, hlast⟩ := hf a next
    rw [hlast] at hrun
    cases hrun
  · rename_i e' next herror
    cases hrun
    exact haction state e after herror

end FailsCleanly

/-! ## The same action on a larger state -/

variable {Whole : Type}

/-- The outcome as it shows in a smaller state. -/
def mapState (view : Whole → State) :
    EStateM.Result UnwindError Whole α → EStateM.Result UnwindError State α
  | .ok a whole => .ok a (view whole)
  | .error e whole => .error e (view whole)

/-- As far as the smaller state shows, the one action does what the other does. -/
def ShowsAs (view : Whole → State) (large : Action Whole α) (small : Action State α) : Prop :=
  ∀ whole, mapState view (large whole) = small (view whole)

namespace ShowsAs

variable {view : Whole → State}

theorem pure (a : α) : ShowsAs view (Pure.pure a) (Pure.pure a) :=
  fun _ => rfl

theorem throw (e : UnwindError) :
    ShowsAs view (MonadExcept.throw e : Action Whole α) (MonadExcept.throw e) :=
  fun _ => rfl

theorem lift (given : Except UnwindError α) :
    ShowsAs view (liftM given : Action Whole α) (liftM given) := by
  intro whole
  cases given <;> rfl

theorem modify {large : Whole → Whole} {small : State → State}
    (h : ∀ whole, view (large whole) = small (view whole)) :
    ShowsAs view (modify large : Action Whole PUnit) (modify small) :=
  fun whole => congrArg (EStateM.Result.ok _) (h whole)

theorem set {whole : Whole} {state : State} (h : view whole = state) :
    ShowsAs view (MonadStateOf.set whole : Action Whole PUnit) (MonadStateOf.set state) :=
  fun _ => congrArg (EStateM.Result.ok _) h

theorem get_bind {large : Whole → Action Whole α} {small : State → Action State α}
    (h : ∀ whole, ShowsAs view (large whole) (small (view whole))) :
    ShowsAs view (MonadState.get >>= large) (MonadState.get >>= small) :=
  fun whole => h whole whole

theorem bind {large : Action Whole α} {small : Action State α} {f : α → Action Whole β}
    {g : α → Action State β} (h : ShowsAs view large small)
    (hrest : ∀ a, ShowsAs view (f a) (g a)) : ShowsAs view (large >>= f) (small >>= g) := by
  intro whole
  have hfirst := h whole
  rw [bind_apply, bind_apply, ← hfirst]
  cases large whole with
  | ok a next => exact hrest a next
  | error e next => rfl

theorem ite {c : Prop} [Decidable c] {large other : Action Whole α}
    {small other' : Action State α} (hfirst : c → ShowsAs view large small)
    (hsecond : ¬c → ShowsAs view other other') :
    ShowsAs view (if c then large else other) (if c then small else other') := by
  split
  · exact hfirst ‹_›
  · exact hsecond ‹_›

theorem attempt {large : Action Whole α} {small : Action State α} (h : ShowsAs view large small) :
    ShowsAs view (Action.attempt large) (Action.attempt small) := by
  intro whole
  rw [attempt_apply, attempt_apply, ← h whole]
  cases large whole <;> rfl

theorem perform {large : Action Whole α} {small : Action State α} (h : ShowsAs view large small)
    (whole : Whole) :
    small.perform (view whole) = ((large.perform whole).1, view (large.perform whole).2) := by
  unfold Action.perform
  rw [← h whole]
  cases large whole <;> rfl

end ShowsAs

end Action
end StackWalk
