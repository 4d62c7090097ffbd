import StackWalk.Arch.Shipped
import StackWalk.Proofs.Cursor.Agreement
import StackWalk.Proofs.Session.Requests

/-!
# The cache is not seen

Two sessions that differ only in what their cursors and caches keep to be
faster stay so as long as both are asked the same, and answer the same.  A
session with a cache of any size is therefore indistinguishable from one
without, as long as the generation does not come round.
-/

namespace StackWalk
namespace Session

variable {World Thread Epoch : Type} {space : AddressSpace World Thread} {epoch : World → Epoch}

/-- The session's cache has no other rules than those of their keys. -/
def Trusts (space : AddressSpace World Thread) (session : Session World Thread) : Prop :=
  session.unwinder.Trusted (space.Confirms session.unwinder.registry session.world)

/-- Two sessions with cursors at the same frames, in the same epoch and with
the same regions, whose caches may be trusted. -/
structure Alike (space : AddressSpace World Thread) (epoch : World → Epoch)
    (first second : Session World Thread) : Prop where
  registry : first.unwinder.registry = second.unwinder.registry
  epoch : epoch first.world = epoch second.world
  cursors : first.cursors.map Cursor.bare = second.cursors.map Cursor.bare
  left : first.Trusts space
  right : second.Trusts space

variable {first second session : Session World Thread}

theorem Alike.cursor_at (halike : Alike space epoch first second) (index : Nat) :
    (first.cursors[index]?).map Cursor.bare = (second.cursors[index]?).map Cursor.bare := by
  have hat := congrArg (·[index]?) halike.cursors
  simpa only [Array.getElem?_map] using hat

/-! ## Requests to cursors -/

theorem onCursor_respects {α : Type} {action : Action (Walk World Thread) α}
    (haction : action.Respects (Walk.Alike space epoch)) (index : Nat) :
    (onCursor index action).Respects (Alike space epoch) := by
  intro first second halike
  have hat := halike.cursor_at index
  cases hfirst : first.cursors[index]? with
  | none =>
      have hsecond : second.cursors[index]? = none := by
        rw [hfirst] at hat
        exact Option.map_eq_none_iff.mp hat.symm
      unfold Action.perform
      rw [onCursor_of_none hfirst, onCursor_of_none hsecond]
      exact ⟨rfl, halike⟩
  | some cursor =>
      obtain ⟨cursor', hsecond, hbare⟩ : ∃ cursor', second.cursors[index]? = some cursor' ∧
          cursor'.bare = cursor.bare := by
        rw [hfirst] at hat
        exact Option.map_eq_some_iff.mp hat.symm
      obtain ⟨hanswer, hafter⟩ := haction
        ⟨first.unwinder, first.world, cursor⟩ ⟨second.unwinder, second.world, cursor'⟩
        ⟨halike.registry, halike.epoch, hbare.symm, halike.left, halike.right⟩
      rw [perform_onCursor hfirst, perform_onCursor hsecond, hanswer]
      refine ⟨rfl, hafter.registry, hafter.epoch, ?_, hafter.left, hafter.right⟩
      simp only [withWalk, Array.map_setIfInBounds, halike.cursors, hafter.cursor]

theorem make_eq (h : space.AnswersBy epoch) {world world' : World}
    (hepoch : epoch world = epoch world') (thread : Thread) :
    Cursor.make space world thread = Cursor.make space world' thread := by
  unfold Cursor.make
  rw [h.loadReg thread space.arch.ip hepoch, h.loadReg thread space.arch.sp hepoch]

theorem openCursor_respects (h : space.AnswersBy epoch) (thread : Thread) :
    (openCursor space thread).Respects (Alike space epoch) := by
  intro first second halike
  have hmake := make_eq h halike.epoch thread
  unfold Action.perform openCursor
  simp only [Action.get_bind_apply]
  rw [hmake]
  cases Cursor.make space second.world thread with
  | error e => exact ⟨rfl, halike⟩
  | ok cursor =>
      refine ⟨rfl, halike.registry, halike.epoch, ?_, halike.left, halike.right⟩
      change (first.cursors.push cursor).map Cursor.bare =
        (second.cursors.push cursor).map Cursor.bare
      rw [Array.map_push, Array.map_push, halike.cursors]

/-! ## Changes of the unwind information -/

theorem renewed_trusts (htrusts : session.Trusts space) (hbehind : session.Behind)
    {registry : Registry} {world : World}
    (hcounts : session.unwinder.generation ≤
      (session.renewed registry world).unwinder.generation) :
    (session.renewed registry world).Trusts space := by
  exact hbehind.trusted_next htrusts hcounts _

/-- The next generation of alike sessions. -/
theorem Alike.renewed (halike : Alike space epoch first second) (hfirst : first.Behind)
    (hsecond : second.unwinder.cache = none) (registry : Registry) {world world' : World}
    (hepoch : epoch world = epoch world')
    (hcounts : first.unwinder.generation ≤
      (first.renewed registry world).unwinder.generation) :
    Alike space epoch (first.renewed registry world) (second.renewed registry world') := by
  refine ⟨rfl, hepoch, halike.cursors, renewed_trusts halike.left hfirst hcounts, ?_⟩
  intro cache hcache
  exact absurd (hsecond.symm.trans hcache) (by simp)

/-! ## Any request -/

theorem serve_alike (h : space.AnswersBy epoch) (halike : Alike space epoch first second)
    (hfirst : first.Behind) (hsecond : second.unwinder.cache = none)
    (request : Request World Thread)
    (hcounts : first.unwinder.generation ≤
      ((serve space request).perform first).2.unwinder.generation) :
    ((serve space request).perform first).1 = ((serve space request).perform second).1 ∧
      Alike space epoch ((serve space request).perform first).2
        ((serve space request).perform second).2 := by
  have hcursor : ∀ {α : Type} {action : Action (Walk World Thread) α} (f : Option α → Answer)
      (index : Nat), action.Respects (Walk.Alike space epoch) →
        (onCursor index action >>= fun a => pure (f a)).Respects (Alike space epoch) := by
    intro α action f index haction
    exact .bind (onCursor_respects haction index) fun _ => .pure _
  cases request with
  | openCursor thread =>
      exact Action.Respects.bind (openCursor_respects h thread) (fun _ => .pure _)
        first second halike
  | step index => exact hcursor _ index (Walk.step_respects h) first second halike
  | argsSize index => exact hcursor _ index (Walk.argsSize_respects h) first second halike
  | isSignalFrame index =>
      exact hcursor _ index (Walk.isSignalFrame_respects h) first second halike
  | setPredicates index predicates =>
      refine hcursor _ index (Walk.modifyCursor_respects ?_) first second halike
      intro first second hbare
      exact congrArg (fun cursor => { cursor with predicates := predicates }) hbare
  | setValidate index validate =>
      refine hcursor _ index (Walk.modifyCursor_respects ?_) first second halike
      intro first second hbare
      exact congrArg (fun cursor => { cursor with validate := validate }) hbare
  | registerRegion region =>
      have hregistry := halike.registry
      unfold Action.perform at hcounts ⊢
      rw [serve_registerRegion] at hcounts ⊢
      rw [serve_registerRegion, ← hregistry]
      cases hregister : first.unwinder.registry.register region with
      | error e => exact ⟨rfl, halike⟩
      | ok registered =>
          rw [hregister] at hcounts
          exact ⟨rfl, halike.renewed hfirst hsecond _ halike.epoch hcounts⟩
  | unregisterRegion start =>
      have hregistry := halike.registry
      unfold Action.perform at hcounts ⊢
      rw [serve_unregisterRegion] at hcounts ⊢
      rw [serve_unregisterRegion, ← hregistry]
      cases hunregister : first.unwinder.registry.unregister start with
      | none => exact ⟨rfl, halike⟩
      | some removed =>
          rw [hunregister] at hcounts
          exact ⟨rfl, halike.renewed hfirst hsecond _ halike.epoch hcounts⟩
  | bumpGeneration world =>
      have hregistry := halike.registry
      unfold Action.perform at hcounts ⊢
      rw [serve_bumpGeneration] at hcounts ⊢
      rw [serve_bumpGeneration, ← hregistry]
      exact ⟨rfl, halike.renewed hfirst hsecond _ rfl hcounts⟩

theorem serve_uncached (space : AddressSpace World Thread)
    (huncached : session.unwinder.cache = none) (request : Request World Thread) :
    ((serve space request).perform session).2.unwinder.cache = none := by
  rcases serve_cases space session request with (hsame | ⟨cursor, honce⟩) | ⟨registry, hnext⟩
  · rw [hsame]
    exact huncached
  · have hsearched : Walk.Searched space ⟨session.unwinder, session.world, cursor⟩
        ((Walk.frameRules space).perform ⟨session.unwinder, session.world, cursor⟩).2 :=
      Walk.frameRules_searched _
    rw [honce]
    exact hsearched.uncached huncached
  · rw [hnext]
    exact huncached

/-! ## Runs -/

theorem views_eq (halike : Alike space epoch first second) :
    first.cursors.toList.map Cursor.view = second.cursors.toList.map Cursor.view := by
  have hview : (Cursor.view : Cursor Thread → CursorView) = Cursor.view ∘ Cursor.bare := rfl
  have hcursors := congrArg Array.toList halike.cursors
  rw [Array.toList_map, Array.toList_map] at hcursors
  rw [hview, ← List.map_map, ← List.map_map, hcursors]

theorem observe_eq (h : space.AnswersBy epoch) (halike : Alike space epoch first second)
    (hfirst : first.Behind) (hsecond : second.unwinder.cache = none)
    (requests : List (Request World Thread)) (hcounts : first.CountsUp space requests) :
    first.observe space requests = second.observe space requests := by
  -- on the requests: after each the sessions are alike again, and neither
  -- cache is of a generation to come
  induction requests generalizing first second with
  | nil => rfl
  | cons request rest ih =>
      obtain ⟨hnext, hrest⟩ := hcounts
      obtain ⟨hanswer, hafter⟩ := serve_alike h halike hfirst hsecond request hnext
      have hbehind := serve_behind halike.left hfirst request hnext
      have huncached := serve_uncached space hsecond request
      have hobserved := ih hafter hbehind huncached hrest
      simp only [observe, hanswer, views_eq hafter, hobserved]

theorem make_trusts (space : AddressSpace World Thread) (config : CacheConfig) (world : World) :
    (make config world : Session World Thread).Trusts space :=
  Unwinder.trusted_make config _

/-- Whatever a client asks for, it sees the same with a cache of any capacity
as without one. -/
theorem observe_cached (h : space.AnswersBy epoch) (config : CacheConfig) (world : World)
    (requests : List (Request World Thread))
    (hcounts : (make config world).CountsUp space requests) :
    (make config world).observe space requests =
      (make { policy := .none } world).observe space requests := by
  have halike : Alike space epoch (make config world) (make { policy := .none } world) :=
    ⟨rfl, rfl, rfl, make_trusts space config world, make_trusts space _ world⟩
  exact observe_eq h halike (make_behind config world) rfl requests hcounts

/-- Code whose frames have the size that the world is, over memory that holds
one return address.  A thread is the value of all its registers. -/
def steadySpace : AddressSpace Int64 UInt64 where
  arch := .aarch64
  loadWord _ _ _ := .ok 0x7004
  storeWord _ addr _ := throw (.unreadable addr)
  loadReg _ thread _ := .ok thread
  storeReg _ reg _ := throw (.readOnlyRegister reg)
  loadFpReg _ _ reg := .error (.badRegister (UInt64.ofNat reg))
  storeFpReg _ reg _ := throw (.readOnlyRegister reg)
  findProc size _ _ := ⟨.ok (.ofRegion {
    name := none
    start := 0x7000
    stop := 0x8000
    returnAddress := 30
    ops := [⟨0, none, .defCfa 31 size⟩, ⟨0, none, .spill 30 (-8)⟩] }), size, 0⟩
  releaseProc size _ _ := size
  procName _ _ ip _ := .error (.noInfo ip)
  probe _ _ _ := .ok ()

theorem steadySpace_answersBy : steadySpace.AnswersBy id where
  loadWord _ _ _ _ := rfl
  loadReg _ _ _ := rfl
  loadFpReg _ _ _ := rfl
  procedure _ _ _ h := by
    cases h
    rfl
  probe _ _ _ := rfl
  findProc _ _ _ := rfl
  releaseProc _ _ _ := rfl

/-- Steps in frames of 16 bytes, the third from the cache, and one after the
frames have become larger. -/
def steadyRequests : List (Request Int64 UInt64) :=
  [.openCursor 0x7000, .step 0, .step 0, .step 0, .bumpGeneration 32, .step 0]

theorem observe_steadySpace :
    steadySpace.AnswersBy id ∧
      (make { capacity := 1 } 16).CountsUp steadySpace steadyRequests ∧
      (make { capacity := 1 } 16).observe steadySpace steadyRequests =
        (make { policy := .none } 16).observe steadySpace steadyRequests ∧
      ((make { capacity := 1 } 16).observe steadySpace steadyRequests).map
          (fun seen => seen.2.map (·.cfa)) =
        [[0x7000], [0x7010], [0x7020], [0x7030], [0x7030], [0x7050]] := by
  have hcounts : (make { capacity := 1 } 16).CountsUp steadySpace steadyRequests :=
    countsUp_of_length_lt (fun _ _ _ => Nat.zero_le 1) le_rfl _ (by decide)
  have hsame := observe_cached steadySpace_answersBy { capacity := 1 } 16 steadyRequests hcounts
  exact ⟨steadySpace_answersBy, hcounts, hsame, rfl⟩

end Session
end StackWalk
