import StackWalk.Arch.Shipped
import StackWalk.Proofs.Cursor.Finding

/-!
# A step is atomic

Whichever way the caller is found, it is checked and committed at one place.
Whatever goes wrong before, the frame is the one the step began with; and
nothing is ever written to the program that is unwound.
-/

namespace StackWalk

variable {World Thread : Type}

/-- The same address space with other ways to write to it. -/
def AddressSpace.writingBy (space : AddressSpace World Thread)
    (storeWord : Thread → UInt64 → UInt64 → Action World Unit)
    (storeReg : Thread → Column → UInt64 → Action World Unit)
    (storeFpReg : Thread → Column → FpImage → Action World Unit) :
    AddressSpace World Thread :=
  { space with storeWord := storeWord, storeReg := storeReg, storeFpReg := storeFpReg }

namespace Walk

variable {space : AddressSpace World Thread} {walk : Walk World Thread}

/-! ## The instruction pointer of the caller -/

theorem callerIp_eq_some {target : Target} {cursor : Cursor Thread} {unwound : Unwound}
    {ip : UInt64} (h : callerIp target cursor unwound = .ok (some ip)) :
    ∃ stored,
      (unwound.locs.of unwound.ipColumn).read target unwound.ipColumn = .ok stored ∧
      ip = (if unwound.raSigned then stored &&& ~~~target.arch.raSignBits else stored) ∧
      ip ≠ 0 ∧ ¬(ip = cursor.ip ∧ unwound.cfa = cursor.cfa) ∧
      ip % target.arch.ipAlignment = 0 := by
  unfold callerIp at h
  dsimp only at h
  by_cases hlost : (unwound.locs.of unwound.ipColumn).isLost = true
  · rw [if_pos hlost] at h
    cases h
  rw [if_neg hlost] at h
  obtain ⟨stored, hstored, h⟩ := bind_eq_ok_iff.mp h
  generalize hclear :
    (if unwound.raSigned then stored &&& ~~~target.arch.raSignBits else stored) = cleared at h
  by_cases hzero : cleared = 0
  · rw [if_pos hzero] at h
    cases h
  rw [if_neg hzero] at h
  by_cases hsame : cleared = cursor.ip ∧ unwound.cfa = cursor.cfa
  · rw [if_pos hsame] at h
    cases h
  rw [if_neg hsame] at h
  by_cases haligned : cleared % target.arch.ipAlignment = 0
  · rw [if_neg (not_not.mpr haligned)] at h
    cases h
    exact ⟨stored, hstored, hclear.symm, hzero, hsame, haligned⟩
  · rw [if_pos haligned] at h
    cases h

/-! ## The commit -/

theorem step_of_found {unwound : Unwound} {between : Walk World Thread}
    (hfound : unwindFrame space walk = .ok unwound between) :
    step space walk =
      (callerIp (between.target space) between.cursor unwound >>= fun
        | none => return false
        | some ip => do
            modifyCursor fun cursor => commit space.arch cursor unwound ip
            return true : Action (Walk World Thread) Bool) between := by
  unfold step
  rw [Action.bind_apply, Action.attempt_apply, hfound]
  rfl

theorem step_of_callerIp {unwound : Unwound} {between : Walk World Thread} {ip : UInt64}
    (hfound : unwindFrame space walk = .ok unwound between)
    (hip : callerIp (between.target space) between.cursor unwound = .ok (some ip)) :
    step space walk =
      .ok true { between with cursor := commit space.arch between.cursor unwound ip } := by
  rw [step_of_found hfound, hip]
  rfl

/-- A step fails or finds no caller, having only searched, or it commits the
caller it found. -/
theorem step_cases (space : AddressSpace World Thread) (walk : Walk World Thread) :
    (∃ after, Searched space walk after ∧
      (step space walk = .ok false after ∨ ∃ e, step space walk = .error e after)) ∨
    ∃ unwound between ip,
      unwindFrame space walk = .ok unwound between ∧
      callerIp (between.target space) between.cursor unwound = .ok (some ip) ∧
      step space walk = .ok true
        { between with cursor := commit space.arch between.cursor unwound ip } := by
  cases hfound : unwindFrame space walk with
  | error e between =>
      left
      refine ⟨between, unwindFrame_searched.of_error hfound, ?_⟩
      unfold step
      rw [Action.bind_apply, Action.attempt_apply, hfound]
      cases e <;> simp
  | ok unwound between =>
      have hstep := step_of_found hfound
      cases hip : callerIp (between.target space) between.cursor unwound with
      | error e =>
          left
          refine ⟨between, unwindFrame_searched.of_ok hfound, Or.inr ⟨e, ?_⟩⟩
          rw [hstep, hip, Action.lift_error_bind_apply]
      | ok found =>
          cases found with
          | none =>
              left
              refine ⟨between, unwindFrame_searched.of_ok hfound, Or.inl ?_⟩
              rw [hstep, hip]
              rfl
          | some ip =>
              right
              exact ⟨unwound, between, ip, rfl, hip, step_of_callerIp hfound hip⟩

/-- What a step that found a caller has done: `stored` is what it read as the
return address of the caller `unwound`. -/
structure Climbed (space : AddressSpace World Thread) (before after : Walk World Thread)
    (unwound : Unwound) (stored : UInt64) : Prop where
  world :
    Relation.ReflTransGen (space.Consults before.cursor.thread) before.world after.world
  read :
    (unwound.locs.of unwound.ipColumn).read (after.target space) unwound.ipColumn = .ok stored
  ip :
    after.cursor.ip =
      if unwound.raSigned then stored &&& ~~~space.arch.raSignBits else stored
  ip_ne_zero : after.cursor.ip ≠ 0
  ip_aligned : space.arch.ipAlignment.toNat ∣ after.cursor.ip.toNat
  moved : (after.cursor.ip, after.cursor.cfa) ≠ (before.cursor.ip, before.cursor.cfa)
  cfa : after.cursor.cfa = unwound.cfa
  ipLocation : after.cursor.locs.of space.arch.ip = unwound.locs.of unwound.ipColumn
  procInfo : after.cursor.procInfo = none

theorem climbed_of_commit {unwound : Unwound} {between : Walk World Thread} {ip : UInt64}
    (harch : space.arch.ip < maxColumns)
    (hfound : unwindFrame space walk = .ok unwound between)
    (hip : callerIp (between.target space) between.cursor unwound = .ok (some ip)) :
    ∃ stored, Climbed space walk
      { between with cursor := commit space.arch between.cursor unwound ip } unwound stored := by
  have hsearched := unwindFrame_searched.of_ok hfound
  obtain ⟨hint, workspace, hcursor⟩ := hsearched.cursor
  obtain ⟨stored, hread, hclear, hzero, hmoved, haligned⟩ := callerIp_eq_some hip
  refine ⟨stored, hsearched.world, hread, hclear, hzero, ?_, ?_, rfl, ?_, rfl⟩
  · apply Nat.dvd_of_mod_eq_zero
    have hmod := congrArg UInt64.toNat haligned
    rwa [UInt64.toNat_mod] at hmod
  · intro hsame
    rw [hcursor] at hmoved
    exact hmoved (Prod.mk.inj hsame)
  · exact Locations.of_put_self harch

theorem step_atomic (space : AddressSpace World Thread) (harch : space.arch.ip < maxColumns)
    (walk : Walk World Thread) :
    (∀ storeWord storeReg storeFpReg,
      step (space.writingBy storeWord storeReg storeFpReg) walk = step space walk) ∧
    match step space walk with
    | .error _ after => Searched space walk after
    | .ok false after => Searched space walk after
    | .ok true after =>
        ∃ unwound between stored,
          Finds space walk unwound between ∧
          (unwound.raSigned = true ↔
            unwound.method.byRules = true ∧
              ∃ script info, frameRules space walk = .ok (script, info) between ∧
                script.raSigned = true) ∧
          Climbed space walk after unwound stored := by
  constructor
  · intro storeWord storeReg storeFpReg
    rfl
  rcases step_cases space walk with
    ⟨after, hsearched, hstep | ⟨e, hstep⟩⟩ | ⟨unwound, between, ip, hfound, hip, hstep⟩
  · rw [hstep]
    exact hsearched
  · rw [hstep]
    exact hsearched
  · rw [hstep]
    have hfinds := finds_of_unwindFrame hfound
    obtain ⟨stored, hclimbed⟩ := climbed_of_commit harch hfound hip
    exact ⟨unwound, between, stored, hfinds, hfinds.raSigned_iff, hclimbed⟩

/-- An address space without unwind information whose memory is full of signed
return addresses. -/
def signingSpace : AddressSpace Unit Unit where
  arch := .aarch64
  loadWord _ _ _ := .ok 0x1f00000000004444
  storeWord _ addr _ := throw (.unreadable addr)
  loadReg _ _ _ := .ok 0x7000
  storeReg _ reg _ := throw (.readOnlyRegister reg)
  loadFpReg _ _ reg := .error (.badRegister (UInt64.ofNat reg))
  storeFpReg _ reg _ := throw (.readOnlyRegister reg)
  findProc world _ ip := ⟨.error (.noInfo ip), world, 0⟩
  releaseProc world _ _ := world
  procName _ _ ip _ := .error (.noInfo ip)
  probe _ _ _ := .ok ()

/-- A frame of 16 bytes whose rules, with a signed return address below the
CFA, are in the cache. -/
def signedWalk : Walk Unit Unit where
  unwinder := { Unwinder.make { policy := .none } with
    cache := some ((ScriptCache.make 1).insert ⟨0x7000, {}⟩
      { cfa := .registerOffset 31 16
        rules := [(30, .cfaRelative (-8))]
        returnAddress := 30
        argsSize := 0
        signalFrame := false
        raSigned := true }
      { start := 0x7000, stop := 0x7010 }).2 }
  world := ()
  cursor := {
    thread := ()
    ip := 0x7000
    cfa := 0x7000
    locs := Locations.live .aarch64
    procInfo := none
    usePrevious := false
    lastStep := none
    validate := false
    predicates := {}
    hint := none
    workspace := .empty }

theorem step_signedWalk :
    Arch.aarch64.ip < maxColumns ∧
      ∃ after unwound stored,
        step signingSpace signedWalk = .ok true after ∧ after.cursor.ip = 0x4444 ∧
          Climbed signingSpace signedWalk after unwound stored := by
  have harch : Arch.aarch64.ip < maxColumns := by decide
  have hip : ((step signingSpace).perform signedWalk).2.cursor.ip = 0x4444 := rfl
  have hanswer : (step signingSpace).answer signedWalk = .ok true := rfl
  obtain ⟨after, hstep⟩ := Action.answer_eq_ok hanswer
  have hatomic := (step_atomic signingSpace harch signedWalk).2
  rw [hstep] at hatomic
  obtain ⟨unwound, _, stored, -, -, hclimbed⟩ := hatomic
  simp only [Action.perform, hstep] at hip
  exact ⟨harch, after, unwound, stored, hstep, hip, hclimbed⟩

end Walk
end StackWalk
