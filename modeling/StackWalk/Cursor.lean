import StackWalk.AddressSpace
import StackWalk.Caller
import StackWalk.Cfi.RowAt
import StackWalk.Heuristic.FramePointer
import StackWalk.Heuristic.LinkRegister
import StackWalk.Heuristic.PltStub
import StackWalk.Heuristic.SignalFrame
import StackWalk.Unwinder

/-!
# Cursors

A cursor is at one frame of a stack, and a step moves it to the caller's.  A
step tries a signal trampoline, then call frame information, from a registered
region or from the address space, and where that is of no use the heuristics
in a fixed order.  A step that does not succeed leaves the frame as it was.
-/

namespace StackWalk

/-- One frame of a stack. -/
structure Cursor (Thread : Type) where
  thread : Thread
  ip : UInt64
  cfa : UInt64
  locs : Locations
  /-- The procedure of the frame, once it was asked for. -/
  procInfo : Option ProcInfo
  /-- The address is that after a call, so unwind information is looked up one
  before it. -/
  usePrevious : Bool
  lastStep : Option StepMethod
  /-- Every access of memory is probed first. -/
  validate : Bool
  predicates : Predicates
  /-- The cache slot used last. -/
  hint : Option Nat
  workspace : Workspace

/-- A cursor at work: the unwinder, the world of its address space, and the
cursor itself. -/
structure Walk (World Thread : Type) where
  unwinder : Unwinder
  world : World
  cursor : Cursor Thread

namespace Cursor

variable {World Thread : Type}

/-- The address that unwind information is looked up for. -/
def lookupIp (cursor : Cursor Thread) : UInt64 :=
  if cursor.usePrevious then
    cursor.ip - 1
  else
    cursor.ip

/-- The frame that a step leaves. -/
def frame (cursor : Cursor Thread) : Frame where
  ip := cursor.ip
  locs := cursor.locs

def describe (cursor : Cursor Thread) : String :=
  let lastStep :=
    match cursor.lastStep with
    | some method => "Some(" ++ method.name ++ ")"
    | none => "None"
  "Cursor \x7b ip: " ++ hex cursor.ip.toNat ++ ", cfa: " ++ hex cursor.cfa.toNat ++
    ", last_step: " ++ lastStep ++ ", .. \x7d"

/-- A cursor at the innermost frame of a thread. -/
def make (space : AddressSpace World Thread) (world : World) (thread : Thread) :
    Except UnwindError (Cursor Thread) := do
  let ip ← space.loadReg world thread space.arch.ip
  let cfa ← space.loadReg world thread space.arch.sp
  return {
    thread := thread
    ip := ip
    cfa := cfa
    locs := Locations.live space.arch
    procInfo := none
    usePrevious := false
    lastStep := none
    validate := false
    predicates := {}
    hint := none
    workspace := .empty }

end Cursor

namespace Walk

variable {World Thread : Type}

def target (space : AddressSpace World Thread) (walk : Walk World Thread) : Target :=
  space.target walk.world walk.cursor.thread walk.cursor.validate

def modifyCursor (change : Cursor Thread → Cursor Thread) : Action (Walk World Thread) Unit :=
  modify fun walk => { walk with cursor := change walk.cursor }

def onWorld {α : Type} (action : Action World α) : Action (Walk World Thread) α :=
  Action.zoom Walk.world (fun world walk => { walk with world := world }) action

/-! ## The rules of the frame -/

def release (space : AddressSpace World Thread) (info : ProcInfo) :
    Action (Walk World Thread) Unit :=
  modify fun walk => { walk with world := space.releaseProc walk.world walk.cursor.thread info }

/-- Asks the address space for the procedure that holds `ip`. -/
def findInSpace (space : AddressSpace World Thread) (ip : UInt64) :
    Action (Walk World Thread) ProcInfo := do
  let walk ← get
  let lookup := space.findProc walk.world walk.cursor.thread ip
  set { walk with
    world := lookup.world
    unwinder := walk.unwinder.bumpTimes lookup.changes }
  lookup.answer

/-- The procedure that holds `ip`, registered regions first, and whether it has
to be given back to the address space. -/
def findProc (space : AddressSpace World Thread) (ip : UInt64) :
    Action (Walk World Thread) (ProcInfo × Bool) := do
  match (← get).unwinder.registry.find? ip with
  | some region =>
      return (.ofRegion region, false)
  | none =>
      let info ← findInSpace space ip
      if info.contains ip then
        return (info, true)
      else
        release space info
        throw (.noInfo ip)

/-- The row of `ip` by the unwind information of its procedure, and the
workspace used for it. -/
def rowIn (target : Target) (ws : Workspace) (info : ProcInfo) (ip : UInt64)
    (predicates : Predicates) : Except UnwindError Row × Workspace :=
  match info.unwindInfo with
  | .absent =>
      (.error (.noInfo ip), ws)
  | .dynamic region =>
      region.rowAt target.arch ws ip predicates
  | .dwarf fde frameSection =>
      match Cfi.parseFde target fde frameSection info.pointerBases with
      | .error e =>
          (.error e, ws)
      | .ok fde =>
          if fde.contains ip then
            Cfi.rowAt target ws fde ip info.pointerBases
          else
            (.error (.noInfo ip), ws)

/-- Computes the row of `ip`, using the cursor's workspace. -/
def buildRow (space : AddressSpace World Thread) (info : ProcInfo) (ip : UInt64) :
    Action (Walk World Thread) (Except UnwindError Row) := do
  let walk ← get
  let cursor := walk.cursor
  let (row, ws) := rowIn (walk.target space) cursor.workspace info ip cursor.predicates
  set { walk with cursor := { cursor with workspace := ws } }
  return row

/-- Computes the rules of the frame and keeps them, if they fit and the unwind
information did not change meanwhile. -/
def freshRules (space : AddressSpace World Thread) (generation : UInt64) (key : CacheKey) :
    Action (Walk World Thread) (Script × ProcInfo) := do
  let (info, provided) ← findProc space key.ip
  let row ← buildRow space info key.ip
  if provided then
    release space info
  let row ← row
  match Script.compile row with
  | none =>
      return (row.toScript, info)
  | some script =>
      let walk ← get
      let (slot, unwinder) := walk.unwinder.storeScript generation key script info
      set { walk with
        unwinder := unwinder
        cursor := { walk.cursor with hint := slot.or walk.cursor.hint } }
      return (script, info)

/-- The rules of the frame and its procedure, from the cache if it has them. -/
def frameRules (space : AddressSpace World Thread) : Action (Walk World Thread) (Script × ProcInfo) := do
  let walk ← get
  let key : CacheKey := ⟨walk.cursor.lookupIp, walk.cursor.predicates⟩
  let (found, unwinder) := walk.unwinder.lookupScript key walk.cursor.hint
  match found with
  | some (slot, entry) =>
      set { walk with unwinder := unwinder, cursor := { walk.cursor with hint := some slot } }
      return (entry.script, entry.info)
  | none =>
      set { walk with unwinder := unwinder }
      freshRules space unwinder.generation key

/-! ## Stepping -/

def unwindByRules (space : AddressSpace World Thread) : Action (Walk World Thread) Unwound := do
  let (script, info) ← frameRules space
  let walk ← get
  let (cfa, locs) ← applyRules (walk.target space) walk.cursor.locs script.cfa script.rules
  return {
    cfa := cfa
    locs := locs
    ipColumn := script.returnAddress
    method :=
      match info.unwindInfo with
      | .dynamic _ => .dynamic
      | _ => .cfi
    exactIp := script.signalFrame
    raSigned := script.raSigned }

/-- The caller's frame by the first heuristic that does not decline, or the
given error. -/
def unwindByHeuristics (target : Target) (frame : Frame) (reason : UnwindError) :
    Except UnwindError Unwound := do
  if let some unwound ← Heuristic.PltStub.step target frame then
    return unwound
  if let some unwound ← Heuristic.FramePointer.step target frame then
    return unwound
  if let some unwound ← Heuristic.LinkRegister.step target frame then
    return unwound
  throw reason

def unwindFrame (space : AddressSpace World Thread) : Action (Walk World Thread) Unwound := do
  let walk ← get
  match ← Heuristic.SignalFrame.step (walk.target space) walk.cursor.frame with
  | some unwound =>
      return unwound
  | none =>
      match ← Action.attempt (unwindByRules space) with
      | .ok unwound =>
          return unwound
      | .error e =>
          if e.allowsFallback then
            let walk ← get
            unwindByHeuristics (walk.target space) walk.cursor.frame e
          else
            throw e

/-- Whether a step counts past the last address while it compares code. -/
def stepOverflows (space : AddressSpace World Thread) (walk : Walk World Thread) : Bool :=
  Heuristic.SignalFrame.overflows (walk.target space) walk.cursor.ip ||
    !Heuristic.SignalFrame.isTrampoline (walk.target space) walk.cursor.ip &&
      match (unwindByRules space).perform walk with
      | (.error e, walk) =>
          e.allowsFallback && Heuristic.PltStub.overflows (walk.target space) walk.cursor.ip
      | (.ok _, _) => false

/-- The caller's instruction pointer; `none` when there is no caller. -/
def callerIp (target : Target) (cursor : Cursor Thread) (unwound : Unwound) :
    Except UnwindError (Option UInt64) := do
  let ra := unwound.locs.of unwound.ipColumn
  if ra.isLost then
    return none
  let stored ← ra.read target unwound.ipColumn
  let ip := if unwound.raSigned then stored &&& ~~~target.arch.raSignBits else stored
  if ip = 0 then
    return none
  else if ip = cursor.ip ∧ unwound.cfa = cursor.cfa then
    throw .badFrame
  else if ip % target.arch.ipAlignment ≠ 0 then
    throw (.invalidIp ip)
  else
    return some ip

def commit (arch : Arch) (cursor : Cursor Thread) (unwound : Unwound) (ip : UInt64) :
    Cursor Thread :=
  { cursor with
    ip := ip
    cfa := unwound.cfa
    locs := unwound.locs.put arch.ip (unwound.locs.of unwound.ipColumn)
    usePrevious := !unwound.exactIp
    lastStep := some unwound.method
    procInfo := none }

/-- Moves to the caller's frame.  The answer is whether there is one. -/
def step (space : AddressSpace World Thread) : Action (Walk World Thread) Bool := do
  match ← Action.attempt (unwindFrame space) with
  | .error .stopUnwind =>
      return false
  | .error e =>
      throw e
  | .ok unwound =>
      let walk ← get
      match ← callerIp (walk.target space) walk.cursor unwound with
      | none =>
          return false
      | some ip =>
          modifyCursor fun cursor => commit space.arch cursor unwound ip
          return true

/-! ## The registers of the frame -/

def location (space : AddressSpace World Thread) (reg : Column) :
    Action (Walk World Thread) Location := do
  let column ← space.arch.checkColumn reg
  return (← get).cursor.locs.of column

def getReg (space : AddressSpace World Thread) (reg : Column) :
    Action (Walk World Thread) UInt64 := do
  let loc ← location space reg
  let walk ← get
  if reg = space.arch.ip then
    return walk.cursor.ip
  else if space.arch.isFp reg then
    throw (.badRegister (UInt64.ofNat reg))
  else
    loc.read (walk.target space) reg

/-- Writes an integer register of the frame.  A new instruction pointer moves
the cursor within the frame. -/
def setReg (space : AddressSpace World Thread) (reg : Column) (value : UInt64) :
    Action (Walk World Thread) Unit := do
  let loc ← location space reg
  let cursor := (← get).cursor
  if space.arch.isFp reg then
    throw (.badRegister (UInt64.ofNat reg))
  else
    onWorld (loc.write space cursor.thread cursor.validate reg value)
    if reg = space.arch.ip then
      modifyCursor fun cursor => { cursor with ip := value, procInfo := none }

def getFpReg (space : AddressSpace World Thread) (reg : Column) :
    Action (Walk World Thread) FpImage := do
  let loc ← location space reg
  let walk ← get
  if space.arch.isFp reg then
    loc.readFp (walk.target space) reg
  else
    throw (.badRegister (UInt64.ofNat reg))

def setFpReg (space : AddressSpace World Thread) (reg : Column) (image : FpImage) :
    Action (Walk World Thread) Unit := do
  let loc ← location space reg
  let cursor := (← get).cursor
  if space.arch.isFp reg then
    onWorld (loc.writeFp space cursor.thread cursor.validate reg image)
  else
    throw (.badRegister (UInt64.ofNat reg))

/-! ## The procedure of the frame -/

def procInfo (space : AddressSpace World Thread) : Action (Walk World Thread) ProcInfo := do
  let cursor := (← get).cursor
  match cursor.procInfo with
  | some info =>
      return info
  | none =>
      let (info, provided) ← findProc space cursor.lookupIp
      if provided then
        release space info
      modifyCursor fun cursor => { cursor with procInfo := some info }
      return info

/-- The name of the procedure of the frame, cut to `room` bytes, and how far
into it the frame is. -/
def procName (space : AddressSpace World Thread) (room : Nat) :
    Action (Walk World Thread) ProcName := do
  let walk ← get
  let cursor := walk.cursor
  let named :=
    (walk.unwinder.registry.find? cursor.lookupIp).bind fun region =>
      region.name.map fun name => (name, region.start)
  match named with
  | some (name, start) =>
      return ⟨name.toUTF8.toList.take room, cursor.ip - start⟩
  | none =>
      space.procName walk.world cursor.thread cursor.ip room

/-- Whether the frame is a signal trampoline, by its code or by its unwind
information. -/
def isSignalFrame (space : AddressSpace World Thread) : Action (Walk World Thread) Bool := do
  let walk ← get
  if Heuristic.SignalFrame.isTrampoline (walk.target space) walk.cursor.ip then
    return true
  else
    match ← Action.attempt (frameRules space) with
    | .ok (script, _) => return script.signalFrame
    | .error _ => return false

def argsSize (space : AddressSpace World Thread) : Action (Walk World Thread) UInt64 := do
  let (script, _) ← frameRules space
  return script.argsSize

end Walk
end StackWalk
