import StackWalk.Proofs.Caller.Bounds
import StackWalk.Proofs.Cursor.Step
import StackWalk.Proofs.Session.Generations

/-!
# The bounds of every frame reached

A cursor starts at a frame that keeps to the target, and a step takes it to
another such frame: what it goes by is the frame, the target and rules that are
for registers of the target, whether they were computed for this step or for an
earlier one.  So it is whatever happens meanwhile to the memory, to the unwind
information and to the regions.
-/

namespace StackWalk

variable {World Thread : Type}

/-- No general register holds more than a word of the target. -/
def AddressSpace.Narrow (space : AddressSpace World Thread) : Prop :=
  ∀ world thread reg value, reg < space.arch.numRegs → space.arch.isFp reg = false →
    space.loadReg world thread reg = .ok value → value ≤ space.arch.wordMask

theorem AddressSpace.Narrow.target {space : AddressSpace World Thread} (h : space.Narrow)
    (world : World) (thread : Thread) (validate : Bool) :
    (space.target world thread validate).Narrow :=
  h world thread

/-- The addresses are words of the target, and the locations keep to it. -/
structure Cursor.Within (arch : Arch) (cursor : Cursor Thread) : Prop where
  ip : cursor.ip ≤ arch.wordMask
  cfa : cursor.cfa ≤ arch.wordMask
  locs : cursor.locs.Within arch

/-- All scripts that the cache has, of whatever generation, fit. -/
def Unwinder.Fits (unwinder : Unwinder) (arch : Arch) : Prop :=
  ∀ cache, unwinder.cache = some cache →
    cache.Trusted cache.generation fun entry => entry.script.Fits arch

theorem Unwinder.Fits.trusted {unwinder : Unwinder} {arch : Arch} (h : unwinder.Fits arch) :
    unwinder.Trusted fun entry => entry.script.Fits arch :=
  fun cache hcache => (h cache hcache).of_eq rfl unwinder.generation

theorem Unwinder.UsedIn.fits {unwinder : Unwinder} {generation : UInt64} {arch : Arch}
    (h : unwinder.UsedIn generation fun entry => entry.script.Fits arch) :
    unwinder.Fits arch := by
  intro cache hcache
  obtain ⟨hgeneration, htrusted⟩ := h cache hcache
  rwa [hgeneration]

variable {space : AddressSpace World Thread}

theorem Cursor.make_within (harch : space.arch.Orderly) (hnarrow : space.Narrow) {world : World}
    {thread : Thread} {cursor : Cursor Thread} (h : Cursor.make space world thread = .ok cursor) :
    cursor.Within space.arch := by
  obtain ⟨ip, hip, h⟩ := bind_eq_ok_iff.mp h
  obtain ⟨cfa, hcfa, h⟩ := bind_eq_ok_iff.mp h
  have hlive := Locations.Within.live harch
  have hregister : ∀ {reg value}, reg < space.arch.numRegs →
      space.loadReg world thread reg = .ok value → value ≤ space.arch.wordMask := by
    intro reg value hreg hread
    have htarget := hnarrow.target world thread false
    have hplace : (Location.register reg false).Within (space.target world thread false).arch :=
      hreg
    exact @Location.Within.read_le _ reg _ hplace harch htarget value hread
  cases h
  exact ⟨hregister harch.ip_lt hip, hregister harch.sp_lt hcfa, hlive⟩

namespace Walk

variable {walk after : Walk World Thread} {unwound : Unwound}

/-! ## Steps -/

theorem Searched.within {arch : Arch} (h : Searched space walk after)
    (hcursor : walk.cursor.Within arch) : after.cursor.Within arch := by
  obtain ⟨hint, workspace, hsame⟩ := h.cursor
  rw [hsame]
  exact { hcursor with }

theorem Finds.within (harch : space.arch.Orderly) (hnarrow : space.Narrow)
    (hfits : walk.unwinder.Fits space.arch) (hcursor : walk.cursor.Within space.arch)
    (h : Finds space walk unwound after) : unwound.Within space.arch := by
  have htarget : ∀ walk : Walk World Thread, (walk.target space).Narrow :=
    fun walk => hnarrow.target _ _ _
  cases h with
  | signal hsignal =>
      have hlocs : walk.cursor.frame.locs.Within (walk.target space).arch := hcursor.locs
      exact Heuristic.SignalFrame.step_within harch (htarget walk) hlocs hsignal
  | @rules script info cfa locs _ hrules happlied =>
      have hscript : script.Fits space.arch := by
        refine (frameRules_fits hfits.trusted).1 script info ?_
        simp [Action.perform, hrules]
      have hlocs := ((frameRules_searched.of_ok hrules).within hcursor).locs
      obtain ⟨hcfa, hcaller⟩ :=
        applyRules_within harch (htarget after) hlocs hscript happlied
      exact ⟨hcfa, hcaller⟩
  | heuristics hfailed hguessed =>
      have hlocs : after.cursor.frame.locs.Within (after.target space).arch :=
        ((unwindByRules_searched.of_error hfailed).within hcursor).locs
      exact unwindByHeuristics_within harch (htarget after) hlocs hguessed

theorem commit_within (harch : space.arch.Orderly) (hnarrow : space.Narrow)
    (hunwound : unwound.Within space.arch) {ip : UInt64}
    (hip : callerIp (walk.target space) walk.cursor unwound = .ok (some ip)) :
    (commit space.arch walk.cursor unwound ip).Within space.arch := by
  obtain ⟨stored, hread, hclear, -⟩ := callerIp_eq_some hip
  have htarget : (walk.target space).Narrow := hnarrow.target _ _ _
  have hplace : (unwound.locs.of unwound.ipColumn).Within (walk.target space).arch :=
    hunwound.locs.places unwound.ipColumn
  have hstored : stored ≤ space.arch.wordMask := hplace.read_le harch htarget hread
  refine ⟨?_, hunwound.cfa, ?_⟩
  · change ip ≤ space.arch.wordMask
    rw [hclear]
    split
    · rw [UInt64.le_iff_toNat_le, UInt64.toNat_and]
      exact Nat.and_le_left.trans (UInt64.le_iff_toNat_le.mp hstored)
    · exact hstored
  · exact hunwound.locs.put harch harch.ip_lt hplace fun hne => absurd rfl hne

/-- If the scripts fit and the frame keeps to the target, the frame after does. -/
def StaysWithin (space : AddressSpace World Thread) (before after : Walk World Thread) : Prop :=
  before.unwinder.Fits space.arch → before.cursor.Within space.arch →
    after.cursor.Within space.arch

theorem Searched.staysWithin (h : Searched space walk after) : StaysWithin space walk after :=
  fun _ hcursor => h.within hcursor

theorem step_staysWithin (harch : space.arch.Orderly) (hnarrow : space.Narrow) :
    (step space).Keeps (StaysWithin space) := by
  intro walk hfits hcursor
  unfold Action.perform
  rcases step_cases space walk with
    ⟨after, hsearched, hstep | ⟨e, hstep⟩⟩ | ⟨unwound, between, ip, hfound, hip, hstep⟩
  · rw [hstep]
    exact hsearched.within hcursor
  · rw [hstep]
    exact hsearched.within hcursor
  · rw [hstep]
    have hunwound := (finds_of_unwindFrame hfound).within harch hnarrow hfits hcursor
    exact commit_within harch hnarrow hunwound hip

end Walk

/-! ## Sessions -/

namespace Session

variable {session next : Session World Thread}

/-- All cursors are at frames that keep to the target, and go on so. -/
structure Within (arch : Arch) (session : Session World Thread) : Prop where
  fits : session.unwinder.Fits arch
  cursors : ∀ cursor ∈ session.cursors, cursor.Within arch

theorem fits_serve (hfits : session.unwinder.Fits space.arch) (request : Request World Thread) :
    ((serve space request).perform session).2.unwinder.Fits space.arch := by
  rcases serve_cases space session request with (hsame | ⟨cursor, honce⟩) | ⟨registry, hnext⟩
  · rw [hsame]
    exact hfits
  · rw [honce]
    exact (Walk.frameRules_fits hfits.trusted).2.fits
  · rw [hnext]
    exact hfits

theorem onCursor_within {α : Type} {action : Action (Walk World Thread) α}
    (haction : action.Keeps (Walk.StaysWithin space)) (index : Nat)
    (h : session.Within space.arch) :
    ∀ cursor ∈ ((onCursor index action).perform session).2.cursors, cursor.Within space.arch := by
  cases hcursor : session.cursors[index]? with
  | none =>
      unfold Action.perform
      rw [onCursor_of_none hcursor]
      exact h.cursors
  | some acting =>
      rw [perform_onCursor hcursor]
      intro cursor hmem
      rcases Array.mem_or_eq_of_mem_setIfInBounds hmem with hold | rfl
      · exact h.cursors cursor hold
      · exact haction _ h.fits (h.cursors acting (Array.mem_of_getElem? hcursor))

theorem openCursor_within (harch : space.arch.Orderly) (hnarrow : space.Narrow) (thread : Thread)
    (h : session.Within space.arch) :
    ∀ cursor ∈ ((openCursor space thread).perform session).2.cursors,
      cursor.Within space.arch := by
  unfold Action.perform openCursor
  simp only [Action.get_bind_apply]
  cases hmake : Cursor.make space session.world thread with
  | error e => exact h.cursors
  | ok opened =>
      intro cursor hmem
      rcases Array.mem_push.mp hmem with hold | rfl
      · exact h.cursors cursor hold
      · exact Cursor.make_within harch hnarrow hmake

theorem serve_within (harch : space.arch.Orderly) (hnarrow : space.Narrow)
    (h : session.Within space.arch) (request : Request World Thread) :
    ((serve space request).perform session).2.Within space.arch := by
  refine ⟨fits_serve h.fits request, ?_⟩
  have hcursor : ∀ {α : Type} {action : Action (Walk World Thread) α} (f : Option α → Answer)
      (index : Nat), action.Keeps (Walk.StaysWithin space) →
        ∀ cursor ∈ ((onCursor index action >>= fun a => pure (f a)).perform session).2.cursors,
          cursor.Within space.arch := by
    intro α action f index haction
    rw [Action.perform_bind_pure]
    exact onCursor_within haction index h
  cases request with
  | openCursor thread =>
      rw [serve, Action.perform_bind_pure]
      exact openCursor_within harch hnarrow thread h
  | step index => exact hcursor _ index (Walk.step_staysWithin harch hnarrow)
  | argsSize index => exact hcursor _ index fun walk => (Walk.argsSize_searched walk).staysWithin
  | isSignalFrame index =>
      exact hcursor _ index fun walk => (Walk.isSignalFrame_searched walk).staysWithin
  | setPredicates index predicates =>
      exact hcursor _ index (.of_modify fun _ _ hwithin => { hwithin with })
  | setValidate index validate =>
      exact hcursor _ index (.of_modify fun _ _ hwithin => { hwithin with })
  | registerRegion region =>
      unfold Action.perform
      rw [serve_registerRegion]
      cases session.unwinder.registry.register region <;> exact h.cursors
  | unregisterRegion start =>
      unfold Action.perform
      rw [serve_unregisterRegion]
      cases session.unwinder.registry.unregister start <;> exact h.cursors
  | bumpGeneration world => exact h.cursors

theorem next_within (harch : space.arch.Orderly) (hnarrow : space.Narrow)
    (h : session.Within space.arch) (operation : Operation World Thread) :
    (session.next space operation).Within space.arch := by
  have hregistry : operation.OnRegistry → (session.next space operation).Within space.arch := by
    intro honRegistry
    obtain ⟨registry, hnext⟩ := next_of_onRegistry space session honRegistry
    rw [hnext]
    exact ⟨h.fits, h.cursors⟩
  cases operation with
  | request request => exact serve_within harch hnarrow h request
  | register region => exact hregistry trivial
  | unregister start => exact hregistry trivial

theorem make_within (arch : Arch) (config : CacheConfig) (world : World) :
    (make config world : Session World Thread).Within arch := by
  constructor
  · intro cache hcache
    rw [CacheConfig.cache_eq_make hcache]
    exact ScriptCache.trusted_make config.capacity _ _
  · simp [make]

/-- What can happen next: anything that a client does, or the world becomes any
other. -/
inductive Happens (space : AddressSpace World Thread) :
    Session World Thread → Session World Thread → Prop
  | operation (session : Session World Thread) (operation : Operation World Thread) :
      Happens space session (session.next space operation)
  | world (session : Session World Thread) (world : World) :
      Happens space session { session with world := world }

theorem Happens.within (harch : space.arch.Orderly) (hnarrow : space.Narrow)
    (h : session.Within space.arch) (hnext : Happens space session next) :
    next.Within space.arch := by
  cases hnext with
  | operation operation => exact next_within harch hnarrow h operation
  | world world => exact ⟨h.fits, h.cursors⟩

/-- Wherever a walk gets to, its frame keeps to the target. -/
theorem cursors_within (hshipped : space.arch ∈ Arch.shipped) (hnarrow : space.Narrow)
    (config : CacheConfig) (world : World)
    (hreached : Relation.ReflTransGen (Happens space) (make config world) session) :
    ∀ cursor ∈ session.cursors, cursor.Within space.arch := by
  have harch := Arch.orderly_of_shipped hshipped
  have hwithin : session.Within space.arch := by
    induction hreached with
    | refl => exact make_within space.arch config world
    | tail _ hnext ih => exact hnext.within harch hnarrow ih
  exact hwithin.cursors

/-- A target of 32 bits whose memory answers with more than that. -/
def wideSpace : AddressSpace Unit Unit where
  arch := .x86
  loadWord _ _ _ := .ok 0xffffffff00004444
  storeWord _ addr _ := throw (.unreadable addr)
  loadReg _ _ _ := .ok 0x7000
  storeReg _ reg _ := throw (.readOnlyRegister reg)
  loadFpReg _ _ reg := .error (.badRegister (UInt64.ofNat reg))
  storeFpReg _ reg _ := throw (.readOnlyRegister reg)
  findProc world _ ip := ⟨.error (.noInfo ip), world, 0⟩
  releaseProc world _ _ := world
  procName _ _ ip _ := .error (.noInfo ip)
  probe _ _ _ := .ok ()

theorem cursors_within_wideSpace :
    wideSpace.arch ∈ Arch.shipped ∧ wideSpace.Narrow ∧
      ∃ session, Relation.ReflTransGen (Happens wideSpace) (make {} ()) session ∧
        session.cursors.map (fun cursor => (cursor.ip, cursor.cfa, cursor.lastStep)) =
          #[(0x4444, 0x7008, some .framePointer)] ∧
        ∀ cursor ∈ session.cursors, cursor.Within wideSpace.arch := by
  have hshipped : wideSpace.arch ∈ Arch.shipped := by decide
  have hnarrow : wideSpace.Narrow := by
    intro world thread reg value _ _ hread
    cases hread
    decide
  have hreached : Relation.ReflTransGen (Happens wideSpace) (make {} ())
      (((make {} ()).next wideSpace (.request (.openCursor ()))).next wideSpace
        (.request (.step 0))) :=
    .tail (.single (.operation _ _)) (.operation _ _)
  exact ⟨hshipped, hnarrow, _, hreached, by decide +kernel,
    cursors_within hshipped hnarrow {} () hreached⟩

end Session
end StackWalk
