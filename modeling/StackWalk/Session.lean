import StackWalk.Cursor

/-!
# Walks side by side

A session is an unwinder over one world with any number of cursors.  Whatever
one cursor does to the unwinder or the world is seen by the others.
-/

namespace StackWalk

/-- An unwinder, the world of its address space, and the cursors in it, in the
order they were made. -/
structure Session (World Thread : Type) where
  unwinder : Unwinder
  world : World
  cursors : Array (Cursor Thread)

namespace Session

variable {World Thread : Type}

def make (config : CacheConfig) (world : World) : Session World Thread where
  unwinder := .make config
  world := world
  cursors := #[]

/-- Makes a cursor at the innermost frame of a thread. -/
def openCursor (space : AddressSpace World Thread) (thread : Thread) :
    Action (Session World Thread) (Cursor Thread) := do
  let session ← get
  let cursor ← Cursor.make space session.world thread
  set { session with cursors := session.cursors.push cursor }
  return cursor

/-- Lets a cursor act.  Nothing happens when there is no such cursor. -/
def onCursor {α : Type} (index : Nat) (action : Action (Walk World Thread) α) :
    Action (Session World Thread) (Option α) :=
  fun session =>
    match session.cursors[index]? with
    | none =>
        .ok none session
    | some cursor =>
        let commit (walk : Walk World Thread) : Session World Thread :=
          { unwinder := walk.unwinder
            world := walk.world
            cursors := session.cursors.setIfInBounds index walk.cursor }
        match action ⟨session.unwinder, session.world, cursor⟩ with
        | .ok a walk => .ok (some a) (commit walk)
        | .error e walk => .error e (commit walk)

end Session

namespace Walk

variable {World Thread : Type}

/-- Steps up to `max` times, until a step does not find a caller.  Answers the
outcome of the last step and the cursor after each that found one. -/
def climb (space : AddressSpace World Thread) (max : Nat) :
    Action (Walk World Thread) (Except UnwindError Bool × List (Cursor Thread)) :=
  match max with
  | 0 =>
      pure (.ok true, [])
  | max + 1 => do
      match ← Action.attempt (step space) with
      | .ok true =>
          let here := (← get).cursor
          let (last, above) ← climb space max
          return (last, here :: above)
      | outcome =>
          return (outcome, [])

/-- Whether one of these steps counts past the last address. -/
def climbOverflows (space : AddressSpace World Thread) (max : Nat) (walk : Walk World Thread) :
    Bool :=
  match max with
  | 0 =>
      false
  | max + 1 =>
      stepOverflows space walk ||
        match (step space).perform walk with
        | (.ok true, walk) => climbOverflows space max walk
        | _ => false

end Walk
end StackWalk
