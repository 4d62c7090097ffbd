import StackWalk.Proofs.Cursor.Rules
import StackWalk.Proofs.Cursor.Step

/-!
# What a cursor keeps of its procedure

A cursor that was asked for the procedure of its frame keeps the answer until
it leaves the frame or the address, or is given another address.  What it keeps
after an action it has kept for the same address before, or a lookup finds it.
-/

namespace StackWalk

variable {World Thread Epoch : Type}

/-- Procedures are the same for all threads and change only with an epoch,
which neither a lookup nor a write begins. -/
structure AddressSpace.FindsBy (space : AddressSpace World Thread) (epoch : World → Epoch) :
    Prop where
  procedure : ∀ {first second : World} (thread other : Thread) (ip : UInt64),
    epoch first = epoch second →
      (space.findProc first thread ip).answer = (space.findProc second other ip).answer
  findProc : ∀ world thread ip, epoch (space.findProc world thread ip).world = epoch world
  releaseProc : ∀ world thread info, epoch (space.releaseProc world thread info) = epoch world
  storeWord : ∀ thread addr value,
    (space.storeWord thread addr value).Keeps fun before after => epoch after = epoch before
  storeReg : ∀ thread reg value,
    (space.storeReg thread reg value).Keeps fun before after => epoch after = epoch before

namespace Walk

variable {space : AddressSpace World Thread} {epoch : World → Epoch}
  {walk before after : Walk World Thread}

theorem procFor_eq (h : space.FindsBy epoch) (registry : Registry) {first second : World}
    (hepoch : epoch first = epoch second) (thread other : Thread) (ip : UInt64) :
    procFor space registry first thread ip = procFor space registry second other ip := by
  unfold procFor
  rw [h.procedure thread other ip hepoch]

theorem procInfo_of_some {info : ProcInfo} (h : walk.cursor.procInfo = some info) :
    procInfo space walk = .ok info walk := by
  simp only [procInfo, Action.get_bind_apply, h, Action.pure_apply]

theorem procInfo_of_failed {e : UnwindError} (h : walk.cursor.procInfo = none)
    (hfailed : findProc space walk.cursor.lookupIp walk = .error e after) :
    procInfo space walk = .error e after := by
  simp only [procInfo, Action.get_bind_apply, h]
  exact Action.bind_eq_of_error hfailed _

/-- The walk once the cursor keeps the procedure that was found. -/
def remembering (space : AddressSpace World Thread) (found : Walk World Thread) (info : ProcInfo)
    (provided : Bool) : Walk World Thread :=
  { found with
    world :=
      if provided then
        space.releaseProc found.world found.cursor.thread info
      else
        found.world
    cursor := { found.cursor with procInfo := some info } }

theorem procInfo_of_found {info : ProcInfo} {provided : Bool} (h : walk.cursor.procInfo = none)
    (hfound : findProc space walk.cursor.lookupIp walk = .ok (info, provided) after) :
    procInfo space walk = .ok info (remembering space after info provided) := by
  simp only [procInfo, Action.get_bind_apply, h]
  rw [Action.bind_eq_of_ok hfound]
  cases provided <;> rfl

/-- The world goes on in its epoch and the unwinder as it was; a cursor that
still keeps a procedure is where it was. -/
structure StaysOrForgets (epoch : World → Epoch) (before after : Walk World Thread) : Prop where
  epoch : epoch after.world = epoch before.world
  unwinder : after.unwinder = before.unwinder
  procInfo : after.cursor.procInfo = none ∨
    after.cursor.procInfo = before.cursor.procInfo ∧
      after.cursor.lookupIp = before.cursor.lookupIp

instance (epoch : World → Epoch) : IsPreorder (Walk World Thread) (StaysOrForgets epoch) where
  refl _ := ⟨rfl, rfl, Or.inr ⟨rfl, rfl⟩⟩
  trans first second third h₁ h₂ := by
    refine ⟨h₂.epoch.trans h₁.epoch, h₂.unwinder.trans h₁.unwinder, ?_⟩
    rcases h₂.procInfo with hnone | ⟨hsame, hip⟩
    · exact Or.inl hnone
    · rw [hsame, hip]
      exact h₁.procInfo

theorem write_keeps_epoch (h : space.FindsBy epoch) (loc : Location) (thread : Thread)
    (validate : Bool) (reg : Column) (value : UInt64) :
    (loc.write space thread validate reg value).Keeps fun before after =>
      epoch after = epoch before := by
  cases loc with
  | lost => exact fun world => rfl
  | register source fp => exact h.storeReg thread source value
  | memory addr fp =>
      intro world
      have hstore := h.storeWord thread addr (value &&& space.arch.wordMask) world
      cases validate with
      | false => exact hstore
      | true =>
          change epoch (Action.perform (liftM (space.probe world thread addr) >>= fun _ =>
            space.storeWord thread addr (value &&& space.arch.wordMask)) world).2 = _
          cases space.probe world thread addr with
          | error e => rfl
          | ok _ => exact hstore
  | value word => exact fun world => rfl

theorem onWorld_stays {α : Type} {action : Action World α}
    (haction : action.Keeps fun before after => epoch after = epoch before) :
    (onWorld action : Action (Walk World Thread) α).Keeps (StaysOrForgets epoch) := by
  intro walk
  have hepoch := haction walk.world
  unfold Action.perform at hepoch ⊢
  unfold onWorld Action.zoom
  cases hrun : action walk.world with
  | ok a world | error e world =>
      rw [hrun] at hepoch
      exact ⟨hepoch, rfl, Or.inr ⟨rfl, rfl⟩⟩

theorem setReg_stays (h : space.FindsBy epoch) (reg : Column) (value : UInt64) :
    (setReg space reg value).Keeps (StaysOrForgets epoch) := by
  have hlocation : (location space reg).Keeps (StaysOrForgets epoch) :=
    .bind (.lift _) fun column => .get_bind fun walk => refl_of _ walk
  refine .bind hlocation fun loc => .get_bind fun walk => ?_
  dsimp only
  split
  · exact refl_of _ walk
  · refine Action.Keeps.bind (onWorld_stays (write_keeps_epoch h _ _ _ _ _)) (fun _ => ?_) walk
    split
    · exact .of_modify fun walk => ⟨rfl, rfl, Or.inl rfl⟩
    · exact .pure _

/-- The world goes on in its epoch, the regions stay, and a procedure that the
cursor keeps was kept for the same address or is what a lookup finds. -/
structure KeepsProc (space : AddressSpace World Thread) (epoch : World → Epoch)
    (before after : Walk World Thread) : Prop where
  epoch : epoch after.world = epoch before.world
  registry : after.unwinder.registry = before.unwinder.registry
  procInfo : ∀ info, after.cursor.procInfo = some info →
    (before.cursor.procInfo = some info ∧ after.cursor.lookupIp = before.cursor.lookupIp) ∨
      procFor space before.unwinder.registry before.world after.cursor.thread
        after.cursor.lookupIp = .ok info

theorem StaysOrForgets.keepsProc (h : StaysOrForgets epoch before after) :
    KeepsProc space epoch before after := by
  refine ⟨h.epoch, congrArg Unwinder.registry h.unwinder, ?_⟩
  intro info hinfo
  rcases h.procInfo with hnone | ⟨hsame, hip⟩
  · rw [hnone] at hinfo
    cases hinfo
  · exact Or.inl ⟨hsame.symm.trans hinfo, hip⟩

theorem Searched.keepsProc (h : space.FindsBy epoch) (hsearched : Searched space before after) :
    KeepsProc space epoch before after := by
  obtain ⟨hint, workspace, hcursor⟩ := hsearched.cursor
  refine ⟨epoch_eq_of_consults h.findProc h.releaseProc hsearched.world, hsearched.registry, ?_⟩
  intro info hinfo
  rw [hcursor] at hinfo ⊢
  exact Or.inl ⟨hinfo, rfl⟩

theorem step_keepsProc (h : space.FindsBy epoch) :
    (step space).Keeps (KeepsProc space epoch) := by
  intro walk
  unfold Action.perform
  rcases step_cases space walk with
    ⟨after, hsearched, hstep | ⟨e, hstep⟩⟩ | ⟨unwound, between, ip, hfound, -, hstep⟩
  · rw [hstep]
    exact hsearched.keepsProc h
  · rw [hstep]
    exact hsearched.keepsProc h
  · rw [hstep]
    have hbetween := (unwindFrame_searched.of_ok hfound).keepsProc h
    refine ⟨hbetween.epoch, hbetween.registry, ?_⟩
    intro info hinfo
    cases hinfo

theorem procInfo_keepsProc (h : space.FindsBy epoch) :
    (procInfo space).Keeps (KeepsProc space epoch) := by
  intro walk
  cases hkept : walk.cursor.procInfo with
  | some info =>
      unfold Action.perform
      rw [procInfo_of_some hkept]
      exact ⟨rfl, rfl, fun _ hinfo => Or.inl ⟨hinfo, rfl⟩⟩
  | none =>
      unfold Action.perform
      cases hrun : findProc space walk.cursor.lookupIp walk with
      | error e found =>
          rw [procInfo_of_failed hkept hrun]
          exact ((findProc_searched _).of_error hrun).keepsProc h
      | ok answer found =>
          obtain ⟨info, provided⟩ := answer
          have hsearched : Searched space walk found := (findProc_searched _).of_ok hrun
          have hkeeps := hsearched.keepsProc h
          obtain ⟨hint, workspace, hcursor⟩ := hsearched.cursor
          rw [procInfo_of_found hkept hrun]
          refine ⟨?_, hkeeps.registry, ?_⟩
          · cases provided with
            | false => exact hkeeps.epoch
            | true => exact (h.releaseProc _ _ _).trans hkeeps.epoch
          · intro told htold
            obtain rfl : info = told := Option.some.inj htold
            have hprocFor := procFor_of_found hrun
            refine Or.inr ?_
            change procFor space _ _ found.cursor.thread found.cursor.lookupIp = .ok info
            rw [hcursor]
            exact hprocFor

end Walk
end StackWalk
