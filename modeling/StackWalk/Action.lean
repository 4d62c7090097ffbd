import StackWalk.UnwindError

/-!
# Actions that may fail

An action changes a state and either answers or fails with an `UnwindError`.
A failure does not undo anything: the state is the one reached when the action
failed, so that what a failed operation leaves behind can be talked about.
-/

namespace StackWalk

/-- A change of a state that answers or fails. -/
abbrev Action (State : Type) (α : Type) := EStateM UnwindError State α

namespace Action

/-- The answer given, without a change of state. -/
def ofExcept {State α : Type} (answer : Except UnwindError α) : Action State α :=
  fun state =>
    match answer with
    | .ok a => .ok a state
    | .error e => .error e state

instance {State : Type} : MonadLift (Except UnwindError) (EStateM UnwindError State) where
  monadLift := ofExcept

/-- The answer of an action and the state after it, failed or not. -/
def perform {State α : Type} (action : Action State α) (state : State) :
    Except UnwindError α × State :=
  match action state with
  | .ok a after => (.ok a, after)
  | .error e after => (.error e, after)

def zoom {Whole Part α : Type} (get : Whole → Part) (put : Part → Whole → Whole)
    (action : Action Part α) : Action Whole α :=
  fun whole =>
    match action (get whole) with
    | .ok a part => .ok a (put part whole)
    | .error e part => .error e (put part whole)

/-- Turns a failure into an answer. -/
def attempt {State α : Type} (action : Action State α) : Action State (Except UnwindError α) :=
  fun state =>
    match action state with
    | .ok a after => .ok (.ok a) after
    | .error e after => .ok (.error e) after

def answer {State α : Type} (action : Action State α) (state : State) : Except UnwindError α :=
  (action.perform state).1

@[simp] theorem ofExcept_ok {State α : Type} (a : α) (state : State) :
    (ofExcept (.ok a) : Action State α) state = .ok a state := rfl

@[simp] theorem ofExcept_error {State α : Type} (e : UnwindError) (state : State) :
    (ofExcept (.error e) : Action State α) state = .error e state := rfl

/-! ## What an action ensures -/

/-- Begun in `state`, the action answers only with what `post` allows. -/
def Ensures {State α : Type} (action : Action State α) (state : State)
    (post : α → State → Prop) : Prop :=
  ∀ a after, action state = .ok a after → post a after

namespace Ensures

variable {State α β : Type} {state : State}

theorem pure {a : α} {post : α → State → Prop} (h : post a state) :
    Ensures (Pure.pure a : Action State α) state post := by
  intro b after hrun
  cases hrun
  exact h

theorem throw {e : UnwindError} {post : α → State → Prop} :
    Ensures (MonadExcept.throw e : Action State α) state post := by
  intro b after hrun
  cases hrun

theorem bind {action : Action State α} {f : α → Action State β} {mid : α → State → Prop}
    {post : β → State → Prop} (haction : Ensures action state mid)
    (hf : ∀ a next, mid a next → Ensures (f a) next post) :
    Ensures (action >>= f) state post := by
  intro b after hrun
  change EStateM.bind action f state = _ at hrun
  unfold EStateM.bind at hrun
  split at hrun
  · rename_i a next ha
    exact hf a next (haction a next ha) b after hrun
  · cases hrun

theorem get : Ensures (MonadState.get : Action State State) state fun a after =>
    a = state ∧ after = state := by
  intro b after hrun
  cases hrun
  exact ⟨rfl, rfl⟩

theorem set {next : State} : Ensures (MonadStateOf.set next : Action State PUnit) state
    fun _ after => after = next := by
  intro b after hrun
  cases hrun
  rfl

theorem ofExcept {given : Except UnwindError α} :
    Ensures (liftM given : Action State α) state fun a after =>
      given = .ok a ∧ after = state := by
  intro b after hrun
  cases given with
  | ok a =>
      cases hrun
      exact ⟨rfl, rfl⟩
  | error e =>
      cases hrun

theorem ite {c : Prop} [Decidable c] {first second : Action State α}
    {post : α → State → Prop} (hfirst : c → Ensures first state post)
    (hsecond : ¬c → Ensures second state post) :
    Ensures (if c then first else second) state post := by
  split
  · exact hfirst ‹_›
  · exact hsecond ‹_›

theorem mono {action : Action State α} {weak strong : α → State → Prop}
    (h : Ensures action state strong) (himp : ∀ a after, strong a after → weak a after) :
    Ensures action state weak :=
  fun a after hrun => himp a after (h a after hrun)

end Ensures

theorem answer_eq_ok {State α : Type} {action : Action State α} {state : State} {a : α}
    (h : action.answer state = .ok a) : ∃ after, action state = .ok a after := by
  unfold answer perform at h
  split at h
  · rename_i b after hrun
    cases h
    exact ⟨after, hrun⟩
  · cases h

end Action
end StackWalk
