import StackWalk.Arch.Shipped
import StackWalk.Proofs.Image.Overlay
import StackWalk.Proofs.Session.RefusedWrites

/-!
# Register writes that succeed

A register that was written is read back from where the frame has it: whole
from a register of the machine, cut to a word of the target from memory.  What
lies elsewhere is as it was.  The instruction pointer is kept in the cursor as
well, and there it is not cut, so that a value wider than a word is one thing in
the cursor and another in memory.
-/

namespace StackWalk

/-! ## Places apart -/

/-- The words at two addresses have no byte in common. -/
def Arch.Disjoint (arch : Arch) (first second : UInt64) : Prop :=
  ∀ i < arch.addressSize, ∀ j < arch.addressSize,
    first + UInt64.ofNat i ≠ second + UInt64.ofNat j

namespace Location

/-- What is written to the one place does not touch the other. -/
def Apart (arch : Arch) : Location → Location → Prop
  | register first _, register second _ => first ≠ second
  | memory first _, memory second _ => arch.Disjoint first second
  | _, _ => True

/-- What a place keeps of a value that is written to it. -/
def kept (arch : Arch) (value : UInt64) : Location → UInt64
  | memory _ _ => UInt64.ofNat (value.toNat % 2 ^ arch.wordBits)
  | _ => value

end Location

namespace AddressSpace

variable {World Thread : Type} {space : AddressSpace World Thread} {thread : Thread}
  {validate : Bool} {reg : Column} {value : UInt64} {world after : World}

/-- What is stored is there afterwards, everything apart from it is as before,
and so is what can be read. -/
structure ReadsBack (space : AddressSpace World Thread) : Prop where
  loadReg_storeReg : ∀ {thread reg value world after},
    space.storeReg thread reg value world = .ok () after →
      space.loadReg after thread reg = .ok value
  loadReg_storeReg_ne : ∀ {thread reg value world after other},
    space.storeReg thread reg value world = .ok () after → reg ≠ other →
      space.loadReg after thread other = space.loadReg world thread other
  loadWord_storeReg : ∀ {thread reg value world after},
    space.storeReg thread reg value world = .ok () after →
      space.loadWord after thread = space.loadWord world thread
  loadWord_storeWord : ∀ {thread addr value world after},
    space.storeWord thread addr value world = .ok () after → value ≤ space.arch.wordMask →
      space.loadWord after thread addr = .ok value
  loadWord_storeWord_disjoint : ∀ {thread addr value world after other},
    space.storeWord thread addr value world = .ok () after → space.arch.Disjoint addr other →
      space.loadWord after thread other = space.loadWord world thread other
  loadReg_storeWord : ∀ {thread addr value world after},
    space.storeWord thread addr value world = .ok () after →
      space.loadReg after thread = space.loadReg world thread
  probe_storeReg : ∀ {thread reg value world after},
    space.storeReg thread reg value world = .ok () after →
      space.probe after thread = space.probe world thread
  probe_storeWord : ∀ {thread addr value world after},
    space.storeWord thread addr value world = .ok () after →
      space.probe after thread = space.probe world thread

theorem loadWord_target_congr {addr : UInt64}
    (hprobe : space.probe after thread = space.probe world thread)
    (hload : space.loadWord after thread addr = space.loadWord world thread addr) :
    (space.target after thread validate).loadWord addr =
      (space.target world thread validate).loadWord addr := by
  simp only [target, hprobe, hload]

theorem writeWord_eq_ok {addr : UInt64}
    (hrun : space.writeWord thread validate addr value world = .ok () after) :
    (validate = true → space.probe world thread addr = .ok ()) ∧
      space.storeWord thread addr (value &&& space.arch.wordMask) world = .ok () after := by
  cases validate with
  | false => exact ⟨nofun, hrun⟩
  | true =>
      change (liftM (space.probe world thread addr) >>= fun _ => _ : Action World Unit) world =
        _ at hrun
      obtain ⟨_, hprobe, hstore⟩ := Action.lift_bind_apply_eq_ok_iff.mp hrun
      exact ⟨fun _ => hprobe, hstore⟩

end AddressSpace

/-! ## A process reads back -/

namespace Image

theorem RegisterFile.get_set (file : RegisterFile) (reg other : Column) (value : UInt64) :
    (file.set reg value).get other = if reg = other then value else file.get other := by
  simp [get, set, Std.HashMap.getD_insert]

namespace PagePair

variable {arch : Arch} {pages after : PagePair} {reg : Column} {addr value : UInt64}

theorem storeReg_eq_ok {thread : Unit}
    (hrun : (space arch).storeReg thread reg value pages = .ok () after) :
    reg < arch.numRegs ∧ after = { pages with registers := pages.registers.set reg value } := by
  obtain ⟨column, hcolumn, hmodify⟩ := Action.lift_bind_apply_eq_ok_iff.mp hrun
  unfold Arch.checkColumn at hcolumn
  split at hcolumn
  · cases hcolumn
    cases hmodify
    exact ⟨‹_›, rfl⟩
  · cases hcolumn

theorem storeWord_eq_ok {thread : Unit}
    (hrun : (space arch).storeWord thread addr value pages = .ok () after) :
    (∃ word, wordOfMemory arch pages.memory.byteAt addr = .ok word) ∧
      after = { pages with
        memory := pages.memory.fill addr (bytesOfWord arch.endian arch.addressSize value) } := by
  simp only [space, Action.get_bind_apply] at hrun
  obtain ⟨memory, hmemory, hset⟩ := Action.lift_bind_apply_eq_ok_iff.mp hrun
  obtain ⟨word, hword, hfill⟩ := bind_eq_ok_iff.mp hmemory
  cases hfill
  cases hset
  exact ⟨⟨word, hword⟩, rfl⟩

theorem space_readsBack (hsize : arch.addressSize ≤ 8) : (space arch).ReadsBack where
  loadReg_storeReg {thread reg value pages after} hrun := by
    obtain ⟨hreg, rfl⟩ := storeReg_eq_ok hrun
    simp [space, Arch.checkColumn, hreg, RegisterFile.get_set]
  loadReg_storeReg_ne {thread reg value pages after other} hrun hne := by
    obtain ⟨hreg, rfl⟩ := storeReg_eq_ok hrun
    by_cases hother : other < arch.numRegs <;>
      simp [space, Arch.checkColumn, hother, RegisterFile.get_set, hne]
  loadWord_storeReg {thread reg value pages after} hrun := by
    obtain ⟨hreg, rfl⟩ := storeReg_eq_ok hrun
    rfl
  loadWord_storeWord {thread addr value pages after} hrun hfits := by
    obtain ⟨⟨word, hword⟩, rfl⟩ := storeWord_eq_ok hrun
    have hroom : addr.toNat + (arch.addressSize + 0) ≤ 2 ^ 64 := (mapped_of_wordOfMemory hword).1
    have hback := @wordOfMemory_overlay arch pages.memory.byteAt addr value [] hroom
    have hmask : value &&& arch.wordMask = value :=
      Arch.and_wordMask (UInt64.le_iff_toNat_le.mp hfits)
    rw [List.append_nil, ofNat_toNat_mod hsize, hmask] at hback
    change wordOfMemory arch (ByteMemory.byteAt _) addr = .ok value
    rw [pages.memory.byteAt_fill_word hsize, hback]
  loadWord_storeWord_disjoint {thread addr value pages after other} hrun hdisjoint := by
    obtain ⟨-, rfl⟩ := storeWord_eq_ok hrun
    change wordOfMemory arch (ByteMemory.byteAt _) other = wordOfMemory arch _ other
    apply wordOfMemory_congr
    intro i hi
    rw [pages.memory.byteAt_fill_word hsize]
    apply overlay_of_ne
    intro j hj
    rw [length_bytesOfWord] at hj
    exact (hdisjoint j hj i hi).symm
  loadReg_storeWord {thread addr value pages after} hrun := by
    obtain ⟨-, rfl⟩ := storeWord_eq_ok hrun
    rfl
  probe_storeReg {thread reg value pages after} hrun := by
    obtain ⟨-, rfl⟩ := storeReg_eq_ok hrun
    rfl
  probe_storeWord {thread addr value pages after} hrun := by
    obtain ⟨-, rfl⟩ := storeWord_eq_ok hrun
    rfl

end PagePair
end Image

/-! ## Reading back -/

namespace Location

variable {World Thread : Type} {space : AddressSpace World Thread} {thread : Thread}
  {validate : Bool} {reg : Column} {value : UInt64} {world after : World} {loc : Location}

theorem ofNat_mod_wordBits (arch : Arch) (value : UInt64) :
    UInt64.ofNat (value.toNat % 2 ^ arch.wordBits) = value &&& arch.wordMask := by
  rw [← Arch.toNat_and_wordMask, UInt64.ofNat_toNat]

/-- Only memory can be too narrow for a value. -/
theorem kept_eq_self_iff (arch : Arch) (value : UInt64) (loc : Location) :
    loc.kept arch value = value ↔
      ¬((∃ addr fp, loc = .memory addr fp) ∧ arch.wordMask < value) := by
  cases loc with
  | memory addr fp =>
      rw [kept, ofNat_mod_wordBits]
      constructor
      · rintro hsame ⟨-, hwide⟩
        exact UInt64.not_le.mpr hwide (hsame ▸ Arch.and_wordMask_le arch value)
      · intro hfits
        have hle : value ≤ arch.wordMask := by
          by_contra hwide
          exact hfits ⟨⟨addr, fp, rfl⟩, UInt64.not_le.mp hwide⟩
        exact Arch.and_wordMask (UInt64.le_iff_toNat_le.mp hle)
  | lost | register source fp | value word => simp [kept]

theorem place_of_write (hrun : loc.write space thread validate reg value world = .ok () after) :
    (∃ source fp, loc = .register source fp) ∨ ∃ addr fp, loc = .memory addr fp := by
  cases loc with
  | lost => cases hrun
  | register source fp => exact Or.inl ⟨source, fp, rfl⟩
  | memory addr fp => exact Or.inr ⟨addr, fp, rfl⟩
  | value word => cases hrun

theorem read_write (h : space.ReadsBack)
    (hrun : loc.write space thread validate reg value world = .ok () after) :
    loc.read (space.target after thread validate) reg = .ok (loc.kept space.arch value) := by
  cases loc with
  | lost => cases hrun
  | register source fp => exact h.loadReg_storeReg hrun
  | memory addr fp =>
      obtain ⟨hprobe, hstore⟩ := AddressSpace.writeWord_eq_ok hrun
      have hback := h.loadWord_storeWord hstore (Arch.and_wordMask_le _ _)
      have hload : (space.target after thread validate).loadWord addr =
          .ok (value &&& space.arch.wordMask) := by
        cases validate with
        | false => exact hback
        | true =>
            simp only [AddressSpace.target, if_true, h.probe_storeWord hstore, hprobe rfl,
              ok_bind, hback]
      have harch : (space.target after thread validate).arch = space.arch := rfl
      rw [kept, ofNat_mod_wordBits, read, Target.readWord, hload, ok_bind, harch,
        UInt64.and_assoc, UInt64.and_self, pure_eq_ok]
  | value word => cases hrun

theorem read_write_of_apart (h : space.ReadsBack)
    (hrun : loc.write space thread validate reg value world = .ok () after) {other : Location}
    (hapart : loc.Apart space.arch other) (column : Column) :
    other.read (space.target after thread validate) column =
      other.read (space.target world thread validate) column := by
  have hword : ∀ {addr}, space.probe after thread = space.probe world thread →
      space.loadWord after thread addr = space.loadWord world thread addr →
        (memory addr false).read (space.target after thread validate) column =
          (memory addr false).read (space.target world thread validate) column := by
    intro addr hprobe hload
    simp only [read, Target.readWord, AddressSpace.loadWord_target_congr hprobe hload]
    rfl
  cases other with
  | lost => rfl
  | value word => rfl
  | register source fp =>
      cases loc with
      | lost => cases hrun
      | register written fp' => exact h.loadReg_storeReg_ne hrun hapart
      | memory addr fp' =>
          obtain ⟨-, hstore⟩ := AddressSpace.writeWord_eq_ok hrun
          exact congrFun (h.loadReg_storeWord hstore) source
      | value word => cases hrun
  | memory addr fp =>
      cases loc with
      | lost => cases hrun
      | register written fp' =>
          exact hword (h.probe_storeReg hrun) (congrFun (h.loadWord_storeReg hrun) addr)
      | memory written fp' =>
          obtain ⟨-, hstore⟩ := AddressSpace.writeWord_eq_ok hrun
          exact hword (h.probe_storeWord hstore) (h.loadWord_storeWord_disjoint hstore hapart)
      | value word => cases hrun

end Location

/-! ## Registers of a frame -/

namespace Cursor

variable {Thread : Type}

/-- The cursor once a register was written. -/
def written (arch : Arch) (reg : Column) (value : UInt64) (cursor : Cursor Thread) :
    Cursor Thread :=
  if reg = arch.ip then
    { cursor with ip := value, procInfo := none }
  else
    cursor

variable (arch : Arch) (reg : Column) (value : UInt64) (cursor : Cursor Thread)

@[simp] theorem written_thread : (cursor.written arch reg value).thread = cursor.thread := by
  unfold written
  split <;> rfl

@[simp] theorem written_validate :
    (cursor.written arch reg value).validate = cursor.validate := by
  unfold written
  split <;> rfl

@[simp] theorem written_locs : (cursor.written arch reg value).locs = cursor.locs := by
  unfold written
  split <;> rfl

theorem written_ip :
    (cursor.written arch reg value).ip = if reg = arch.ip then value else cursor.ip := by
  unfold written
  split <;> rfl

end Cursor

namespace Walk

variable {World Thread : Type} {space : AddressSpace World Thread} {walk after : Walk World Thread}
  {reg other : Column} {value : UInt64}

theorem setReg_eq_ok (hrun : setReg space reg value walk = .ok () after) :
    reg < space.arch.numRegs ∧ space.arch.isFp reg = false ∧
      ∃ world,
        (walk.cursor.locs.of reg).write space walk.cursor.thread walk.cursor.validate reg value
          walk.world = .ok () world ∧
        after = { walk with
          world := world
          cursor := walk.cursor.written space.arch reg value } := by
  rw [setReg, location_bind] at hrun
  obtain ⟨column, hcolumn, hrun⟩ := Action.lift_bind_apply_eq_ok_iff.mp hrun
  simp only [Action.get_bind_apply] at hrun
  unfold Arch.checkColumn at hcolumn
  split at hcolumn
  · rename_i hreg
    cases hcolumn
    cases hfp : space.arch.isFp reg with
    | true =>
        simp only [hfp, if_true] at hrun
        cases hrun
    | false =>
        rw [hfp, if_neg (by decide)] at hrun
        obtain ⟨_, next, hwrite, hrest⟩ := Action.ok_of_bind hrun
        unfold onWorld Action.zoom at hwrite
        split at hwrite
        · rename_i world hworld
          cases hwrite
          refine ⟨hreg, rfl, world, hworld, ?_⟩
          unfold Cursor.written
          split at hrest
          · cases hrest
            rw [if_pos ‹_›]
          · cases hrest
            rw [if_neg ‹_›]
        · cases hwrite
  · cases hcolumn

theorem getReg_answer (space : AddressSpace World Thread) (reg : Column)
    (walk : Walk World Thread) :
    (getReg space reg).answer walk =
      if reg < space.arch.numRegs then
        if reg = space.arch.ip then
          .ok walk.cursor.ip
        else if space.arch.isFp reg then
          .error (.badRegister (UInt64.ofNat reg))
        else
          (walk.cursor.locs.of reg).read (walk.target space) reg
      else
        .error (.badRegister (UInt64.ofNat reg)) := by
  unfold Action.answer Action.perform
  rw [getReg, location_bind, Arch.checkColumn]
  by_cases hreg : reg < space.arch.numRegs
  · simp only [hreg, if_true, Action.lift_ok_bind_apply, Action.get_bind_apply]
    by_cases hip : reg = space.arch.ip
    · simp [hip]
    · rw [if_neg hip, if_neg hip]
      cases space.arch.isFp reg with
      | true => rfl
      | false => cases (walk.cursor.locs.of reg).read (walk.target space) reg <;> rfl
  · simp [hreg]

/-- A register that was written has the value there, as far as the place goes,
and registers in places apart keep theirs.  The cursor has the instruction
pointer as it was given: it is not what its place has exactly if that is memory
and the value is wider than a word of the target. -/
theorem getReg_after_setReg (h : space.ReadsBack)
    (hrun : setReg space reg value walk = .ok () after) :
    let loc := walk.cursor.locs.of reg
    let there := loc.read (after.target space) reg
    after.cursor.locs = walk.cursor.locs ∧
      ((∃ source fp, loc = .register source fp ∧ there = .ok value) ∨
        ∃ addr fp, loc = .memory addr fp ∧
          there = .ok (UInt64.ofNat (value.toNat % 2 ^ space.arch.wordBits))) ∧
      (getReg space reg).answer after = (if reg = space.arch.ip then .ok value else there) ∧
      after.cursor.ip = (if reg = space.arch.ip then value else walk.cursor.ip) ∧
      ((getReg space reg).answer after = there ↔
        ¬(reg = space.arch.ip ∧ (∃ addr fp, loc = .memory addr fp) ∧
          space.arch.wordMask < value)) ∧
      ∀ other ≠ reg, loc.Apart space.arch (walk.cursor.locs.of other) →
        (getReg space other).answer after = (getReg space other).answer walk := by
  intro loc there
  obtain ⟨hreg, hfp, world, hwrite, hafter⟩ := setReg_eq_ok hrun
  have hcursor : after.cursor = walk.cursor.written space.arch reg value := by
    rw [hafter]
  have htarget : after.target space =
      space.target world walk.cursor.thread walk.cursor.validate := by
    rw [hafter]
    simp [target]
  have hthere : there = .ok (loc.kept space.arch value) := by
    rw [← Location.read_write h hwrite, ← htarget]
  have hget : (getReg space reg).answer after =
      if reg = space.arch.ip then .ok value else there := by
    rw [getReg_answer, if_pos hreg, hfp, hcursor, Cursor.written_ip, Cursor.written_locs]
    by_cases hip : reg = space.arch.ip <;> simp [hip, there, loc]
  refine ⟨?_, ?_, hget, ?_, ?_, ?_⟩
  · rw [hcursor, Cursor.written_locs]
  · rcases Location.place_of_write hwrite with ⟨source, fp, hloc⟩ | ⟨addr, fp, hloc⟩
    · exact Or.inl ⟨source, fp, hloc, hthere.trans (congrArg _ (congrArg _ hloc))⟩
    · exact Or.inr ⟨addr, fp, hloc, hthere.trans (congrArg _ (congrArg _ hloc))⟩
  · rw [hcursor, Cursor.written_ip]
  · rw [hget, hthere]
    by_cases hip : reg = space.arch.ip
    · have hcut := Location.kept_eq_self_iff space.arch value loc
      rw [if_pos hip, Except.ok.injEq, eq_comm, hcut, and_iff_right hip]
    · simp [hip]
  · intro other hne hapart
    have hread := Location.read_write_of_apart h hwrite hapart other
    have hip : other = space.arch.ip → after.cursor.ip = walk.cursor.ip := by
      intro hother
      rw [hcursor, Cursor.written_ip, if_neg fun hsame => hne (hother.trans hsame.symm)]
    rw [getReg_answer, getReg_answer, htarget, hcursor, Cursor.written_locs, ← hcursor, hread]
    by_cases hother : other = space.arch.ip
    · rw [if_pos hother, if_pos hother, hip hother]
    · rw [if_neg hother, if_neg hother]
      rfl

end Walk

namespace Session

/-- The world is the word at `0x8004` and the register of column 3, which can be
written. -/
def narrowSpace : AddressSpace (UInt64 × UInt64) Unit where
  arch := .x86
  loadWord world _ addr := if addr = 0x8004 then .ok world.1 else .error (.unreadable addr)
  storeWord _ addr value :=
    if addr = 0x8004 then
      modify fun world => (value, world.2)
    else
      throw (.unreadable addr)
  loadReg world _ reg := .ok (if reg = 3 then world.2 else if reg = 8 then 0x1000 else 0x8000)
  storeReg _ reg value :=
    if reg = 3 then
      modify fun world => (world.1, value)
    else
      throw (.readOnlyRegister reg)
  loadFpReg _ _ reg := .error (.badRegister (UInt64.ofNat reg))
  storeFpReg _ reg _ := throw (.readOnlyRegister reg)
  findProc world _ ip := ⟨.error (.noInfo ip), world, 0⟩
  releaseProc world _ _ := world
  procName _ _ ip _ := .error (.noInfo ip)
  probe _ _ _ := .ok ()

theorem narrowSpace_storeReg {reg : Column} {value : UInt64} {world after : UInt64 × UInt64}
    (hrun : narrowSpace.storeReg () reg value world = .ok () after) :
    reg = 3 ∧ after = (world.1, value) := by
  simp only [narrowSpace] at hrun
  split at hrun
  · cases hrun
    exact ⟨‹_›, rfl⟩
  · cases hrun

theorem narrowSpace_storeWord {addr value : UInt64} {world after : UInt64 × UInt64}
    (hrun : narrowSpace.storeWord () addr value world = .ok () after) :
    addr = 0x8004 ∧ after = (value, world.2) := by
  simp only [narrowSpace] at hrun
  split at hrun
  · cases hrun
    exact ⟨‹_›, rfl⟩
  · cases hrun

theorem narrowSpace_readsBack : narrowSpace.ReadsBack where
  loadReg_storeReg hrun := by
    obtain ⟨rfl, rfl⟩ := narrowSpace_storeReg hrun
    rfl
  loadReg_storeReg_ne hrun hne := by
    obtain ⟨rfl, rfl⟩ := narrowSpace_storeReg hrun
    simp [narrowSpace, Ne.symm hne]
  loadWord_storeReg hrun := by
    obtain ⟨rfl, rfl⟩ := narrowSpace_storeReg hrun
    rfl
  loadWord_storeWord hrun _ := by
    obtain ⟨rfl, rfl⟩ := narrowSpace_storeWord hrun
    rfl
  loadWord_storeWord_disjoint hrun hdisjoint := by
    obtain ⟨rfl, rfl⟩ := narrowSpace_storeWord hrun
    have hne := hdisjoint 0 (by decide) 0 (by decide)
    simp only [UInt64.reduceOfNat, UInt64.add_zero] at hne
    simp [narrowSpace, Ne.symm hne]
  loadReg_storeWord hrun := by
    obtain ⟨rfl, rfl⟩ := narrowSpace_storeWord hrun
    rfl
  probe_storeReg _ := rfl
  probe_storeWord _ := rfl

/-- A frame of 8 bytes with the return address in its last word. -/
def callRegion : Region where
  name := none
  start := 0x1000
  stop := 0x1100
  returnAddress := 8
  ops := [⟨0, none, .defCfa 4 8⟩, ⟨0, none, .spill 8 (-4)⟩]

/-- A cursor at the caller of that frame. -/
def callerSession : Session (UInt64 × UInt64) Unit :=
  [Request.openCursor (), .registerRegion callRegion, .step 0].foldl
    (fun session request => ((serve narrowSpace request).perform session).2)
    (make {} (0x2000, 7))

/-- The instruction pointer of the caller is moved within 32 bits, and the
register of column 3 stays. -/
theorem getReg_after_setReg_narrow :
    narrowSpace.ReadsBack ∧
      ∃ cursor after,
        callerSession.cursors[0]? = some cursor ∧
        Walk.setReg narrowSpace 8 0x3000 ⟨callerSession.unwinder, callerSession.world, cursor⟩ =
          .ok () after ∧
        cursor.locs.of 8 = .memory 0x8004 false ∧
        (Walk.getReg narrowSpace 8).answer after =
          (cursor.locs.of 8).read (after.target narrowSpace) 8 ∧
        (Walk.getReg narrowSpace 3).answer after = .ok 7 := by
  have hfound : callerSession.cursors[0]?.map (fun cursor =>
      let walk : Walk (UInt64 × UInt64) Unit :=
        ⟨callerSession.unwinder, callerSession.world, cursor⟩
      ((Walk.setReg narrowSpace 8 0x3000).answer walk, (Walk.getReg narrowSpace 3).answer walk,
        cursor.locs.of 8, cursor.locs.of 3)) =
      some (.ok (), .ok 7, .memory 0x8004 false, .register 3 false) := by
    decide +kernel
  obtain ⟨cursor, hcursor, hseen⟩ := Option.map_eq_some_iff.mp hfound
  simp only [Prod.mk.injEq] at hseen
  obtain ⟨hanswer, hbefore, hip, hother⟩ := hseen
  obtain ⟨after, hrun⟩ := Action.answer_eq_ok_iff.mp hanswer
  obtain ⟨-, -, -, -, hsame, hothers⟩ := Walk.getReg_after_setReg narrowSpace_readsBack hrun
  refine ⟨narrowSpace_readsBack, cursor, after, hcursor, hrun, hip, hsame.mpr ?_, ?_⟩
  · rintro ⟨-, -, hwide⟩
    exact absurd hwide (by decide)
  · rw [← hbefore]
    refine hothers 3 (by decide) ?_
    dsimp only
    rw [hip, hother]
    trivial

/-- Moved past 32 bits, it is one thing in the cursor and another in memory. -/
theorem getReg_ne_location_wide :
    let written := (onCursor 0 (Walk.setReg narrowSpace 8 0x100003000)).perform callerSession
    narrowSpace.arch ∈ Arch.shipped ∧ narrowSpace.ReadsBack ∧
      written.1 = .ok (some ()) ∧
      (onCursor 0 (Walk.getReg narrowSpace 8)).answer written.2 = .ok (some 0x100003000) ∧
      written.2.cursors[0]?.map (fun cursor => (cursor.ip, cursor.locs.of 8)) =
        some (0x100003000, .memory 0x8004 false) ∧
      (Location.memory 0x8004 false).read (narrowSpace.target written.2.world () false) 8 =
        .ok 0x3000 :=
  ⟨by decide, narrowSpace_readsBack, by decide +kernel, by decide +kernel, by decide +kernel,
    by decide +kernel⟩

end Session
end StackWalk
