import StackWalk.Image.ByteImage
import StackWalk.Image.PagePair
import StackWalk.Image.WordImage
import StackWalk.Proofs.Session.Requests

/-!
# Register writes that fail

A register is written where the frame has it, in the machine or in a word of
memory, and a write that is refused changes nothing, if the accesses of the
address space keep to that.  An image of several words is the exception: its
words are written one after the other, and those in front of the refused one
stay written.
-/

namespace StackWalk

/-! ## Writing words -/

namespace AddressSpace

variable {World Thread : Type} {space : AddressSpace World Thread} {thread : Thread}
  {validate : Bool} {world after : World} {e : UnwindError}

/-- The writing accesses of the space change nothing when they fail. -/
structure FailsCleanly (space : AddressSpace World Thread) : Prop where
  storeWord : ∀ thread addr value, (space.storeWord thread addr value).FailsCleanly
  storeReg : ∀ thread reg value, (space.storeReg thread reg value).FailsCleanly
  storeFpReg : ∀ thread reg image, (space.storeFpReg thread reg image).FailsCleanly

/-- Of the words, as many as `count` were written, and the next was refused. -/
def StopsAt (space : AddressSpace World Thread) (thread : Thread) (validate : Bool)
    (words : List (UInt64 × UInt64)) (count : Nat) (world : World) (e : UnwindError)
    (after : World) : Prop :=
  space.writeWords thread validate (words.take count) world = .ok () after ∧
    ∃ word, words[count]? = some word ∧
      space.writeWord thread validate word.1 word.2 after = .error e after

theorem FailsCleanly.writeWord (h : space.FailsCleanly) (thread : Thread) (validate : Bool)
    (addr value : UInt64) : (space.writeWord thread validate addr value).FailsCleanly := by
  have hstore := h.storeWord thread addr (value &&& space.arch.wordMask)
  cases validate with
  | false => exact hstore
  | true => exact .get_bind fun world => .lift_bind fun _ => hstore

theorem writeWords_cons (word : UInt64 × UInt64) (rest : List (UInt64 × UInt64)) :
    space.writeWords thread validate (word :: rest) world =
      match space.writeWord thread validate word.1 word.2 world with
      | .ok _ next => space.writeWords thread validate rest next
      | .error e next => .error e next := by
  rw [writeWords, Action.bind_apply]
  cases space.writeWord thread validate word.1 word.2 world <;> rfl

theorem stopsAt_zero {word : UInt64 × UInt64} {rest : List (UInt64 × UInt64)} :
    space.StopsAt thread validate (word :: rest) 0 world e after ↔
      world = after ∧ space.writeWord thread validate word.1 word.2 after = .error e after := by
  have hnone : space.writeWords thread validate [] world = .ok () after ↔ world = after := by
    simp [writeWords]
  simp [StopsAt, hnone]

theorem stopsAt_succ {word : UInt64 × UInt64} {rest : List (UInt64 × UInt64)} {count : Nat} :
    space.StopsAt thread validate (word :: rest) (count + 1) world e after ↔
      ∃ next, space.writeWord thread validate word.1 word.2 world = .ok () next ∧
        space.StopsAt thread validate rest count next e after := by
  unfold StopsAt
  rw [List.take_succ_cons, writeWords_cons]
  cases space.writeWord thread validate word.1 word.2 world <;> simp

/-- Words are not written exactly if one of them is refused. -/
theorem writeWords_eq_error_iff (h : space.FailsCleanly) {words : List (UInt64 × UInt64)} :
    space.writeWords thread validate words world = .error e after ↔
      ∃ count, space.StopsAt thread validate words count world e after := by
  induction words generalizing world with
  | nil => simp [writeWords, StopsAt]
  | cons word rest ih =>
      rw [writeWords_cons, ← Nat.or_exists_add_one]
      simp only [stopsAt_zero, stopsAt_succ]
      cases hword : space.writeWord thread validate word.1 word.2 world with
      | ok done next =>
          have hfirst : ¬(world = after ∧
              space.writeWord thread validate word.1 word.2 after = .error e after) := by
            rintro ⟨rfl, herror⟩
            rw [hword] at herror
            cases herror
          simp [hfirst, ih]
      | error e' next =>
          -- Where the refused store has left the world is where it began.
          have hclean := h.writeWord _ _ _ _ _ _ _ hword
          constructor
          · rintro ⟨⟩
            exact Or.inl ⟨hclean.symm, hclean ▸ hword⟩
          · rintro (⟨rfl, herror⟩ | ⟨count, last, hok, -⟩)
            · exact hword.symm.trans herror
            · cases hok

/-- The image of the column lies in memory, and of its words as many as `count`
were written before one was refused. -/
def ImageStopsAt (space : AddressSpace World Thread) (cursor : Cursor Thread) (reg : Column)
    (image : FpImage) (count : Nat) (world : World) (e : UnwindError) (after : World) : Prop :=
  ∃ addr fp addrs,
    cursor.locs.of reg = .memory addr fp ∧
    space.arch.imageAddresses addr = .ok addrs ∧
    space.StopsAt cursor.thread cursor.validate (addrs.zip (space.arch.wordsOfImage image)) count
      world e after

theorem ImageStopsAt.lt_imageWords {cursor : Cursor Thread} {reg : Column} {image : FpImage}
    {count : Nat} (h : space.ImageStopsAt cursor reg image count world e after) :
    count < space.arch.imageWords := by
  obtain ⟨addr, fp, addrs, -, -, -, word, hword, -⟩ := h
  obtain ⟨hcount, -⟩ := List.getElem?_eq_some_iff.mp hword
  rw [List.length_zip, Arch.length_wordsOfImage] at hcount
  omega

theorem ImageStopsAt.eq_of_zero {cursor : Cursor Thread} {reg : Column} {image : FpImage}
    (h : space.ImageStopsAt cursor reg image 0 world e after) : after = world := by
  obtain ⟨addr, fp, addrs, -, -, hnone, -⟩ := h
  rw [List.take_zero, writeWords, Action.pure_apply] at hnone
  cases hnone
  rfl

end AddressSpace

/-! ## The images of programs keep to it -/

namespace Image

theorem ImageConfig.space_failsCleanly (config : ImageConfig) : config.space.FailsCleanly where
  storeWord _ _ _ := .get_bind fun _ => .lift_bind fun _ => .set _
  storeReg _ _ _ := .lift_bind fun _ => .of_modify _
  storeFpReg _ _ _ := .lift_bind fun _ => .of_modify _

theorem PagePair.space_failsCleanly (arch : Arch) : (PagePair.space arch).FailsCleanly where
  storeWord _ _ _ := .get_bind fun _ => .lift_bind fun _ => .set _
  storeReg _ _ _ := .lift_bind fun _ => .of_modify _
  storeFpReg _ _ _ := .throw _

theorem WordImage.space_failsCleanly (arch : Arch) : (WordImage.space arch).FailsCleanly where
  storeWord _ _ _ := .of_modify _
  storeReg _ _ _ := .lift_bind fun _ => .of_modify _
  storeFpReg _ _ _ := .lift_bind fun _ => .of_modify _

end Image

/-! ## Writing registers -/

namespace Walk

variable {World Thread : Type} {space : AddressSpace World Thread} {α : Type}

theorem write_failsCleanly (h : space.FailsCleanly) (loc : Location) (thread : Thread)
    (validate : Bool) (reg : Column) (value : UInt64) :
    (loc.write space thread validate reg value).FailsCleanly := by
  cases loc with
  | lost => exact .throw _
  | register source fp => exact h.storeReg thread source value
  | memory addr fp => exact h.writeWord thread validate addr value
  | value word => exact .throw _

theorem onWorld_failsCleanly {action : Action World α} (h : action.FailsCleanly) :
    (onWorld action : Action (Walk World Thread) α).FailsCleanly := by
  intro walk e after hrun
  unfold onWorld Action.zoom at hrun
  cases haction : action walk.world with
  | ok a world =>
      rw [haction] at hrun
      cases hrun
  | error e' world =>
      rw [haction] at hrun
      cases hrun
      rw [h _ _ _ haction]

theorem location_bind (reg : Column) (f : Location → Action (Walk World Thread) α) :
    location space reg >>= f =
      (liftM (space.arch.checkColumn reg) >>= fun column =>
        get >>= fun walk => f (walk.cursor.locs.of column)) := by
  funext walk
  unfold location
  cases space.arch.checkColumn reg <;> rfl

theorem setReg_failsCleanly (h : space.FailsCleanly) (reg : Column) (value : UInt64) :
    (setReg space reg value).FailsCleanly := by
  rw [setReg, location_bind]
  refine .lift_bind fun column => .get_bind fun _ => .get_bind fun walk => .ite (.throw _) ?_
  refine (onWorld_failsCleanly (write_failsCleanly h _ _ _ _ _)).bind_of_total fun _ after => ?_
  split
  · exact ⟨_, _, rfl⟩
  · exact ⟨_, _, rfl⟩

theorem setFpReg_apply (reg : Column) (image : FpImage) (walk : Walk World Thread) :
    setFpReg space reg image walk =
      if reg < space.arch.numRegs ∧ space.arch.isFp reg = true then
        onWorld ((walk.cursor.locs.of reg).writeFp space walk.cursor.thread walk.cursor.validate
          reg image) walk
      else
        .error (.badRegister (UInt64.ofNat reg)) walk := by
  rw [setFpReg, location_bind, Arch.checkColumn]
  by_cases hreg : reg < space.arch.numRegs
  · cases space.arch.isFp reg <;> simp [hreg]
  · simp [hreg]

/-- An image is refused as a whole, or at one of its words. -/
theorem writeFp_of_error (h : space.FailsCleanly) {cursor : Cursor Thread} {reg : Column}
    {image : FpImage} {world after : World} {e : UnwindError}
    (hrun : (cursor.locs.of reg).writeFp space cursor.thread cursor.validate reg image world =
      .error e after) :
    after = world ∨ ∃ count, space.ImageStopsAt cursor reg image count world e after := by
  cases hloc : cursor.locs.of reg with
  | lost | value word =>
      rw [hloc] at hrun
      cases hrun
      exact Or.inl rfl
  | register source fp =>
      rw [hloc] at hrun
      exact Or.inl (h.storeFpReg _ _ _ _ _ _ hrun)
  | memory addr fp =>
      rw [hloc] at hrun
      unfold Location.writeFp at hrun
      cases haddrs : space.arch.imageAddresses addr with
      | error e' =>
          simp only [haddrs, Action.lift_error_bind_apply] at hrun
          cases hrun
          exact Or.inl rfl
      | ok addrs =>
          simp only [haddrs, Action.lift_ok_bind_apply] at hrun
          obtain ⟨count, hstops⟩ := (AddressSpace.writeWords_eq_error_iff h).mp hrun
          exact Or.inr ⟨count, addr, fp, addrs, hloc, haddrs, hstops⟩

theorem setFpReg_of_error (h : space.FailsCleanly) {reg : Column} {image : FpImage}
    {walk after : Walk World Thread} {e : UnwindError}
    (hrun : setFpReg space reg image walk = .error e after) :
    after = walk ∨
      ∃ count world, space.ImageStopsAt walk.cursor reg image count walk.world e world ∧
        after = { walk with world := world } := by
  rw [setFpReg_apply] at hrun
  split at hrun
  · unfold onWorld Action.zoom at hrun
    split at hrun
    · cases hrun
    · rename_i e' world hwrite
      cases hrun
      rcases writeFp_of_error h hwrite with rfl | ⟨count, hstops⟩
      · exact Or.inl rfl
      · exact Or.inr ⟨count, world, hstops, rfl⟩
  · cases hrun
    exact Or.inl rfl

theorem setFpReg_of_imageStopsAt (h : space.FailsCleanly) {reg : Column} {image : FpImage}
    {walk : Walk World Thread} {e : UnwindError} {count : Nat} {world : World}
    (hreg : reg < space.arch.numRegs) (hfp : space.arch.isFp reg = true)
    (hstops : space.ImageStopsAt walk.cursor reg image count walk.world e world) :
    setFpReg space reg image walk = .error e { walk with world := world } := by
  obtain ⟨addr, fp, addrs, hloc, haddrs, hstops⟩ := hstops
  have hwords := (AddressSpace.writeWords_eq_error_iff h).mpr ⟨count, hstops⟩
  rw [setFpReg_apply, if_pos ⟨hreg, hfp⟩]
  simp only [onWorld, Action.zoom, hloc, Location.writeFp, haddrs, Action.lift_ok_bind_apply,
    hwords]

end Walk

namespace Session

variable {World Thread : Type} {space : AddressSpace World Thread} {α : Type}
  {session after : Session World Thread}

theorem onCursor_of_error {index : Nat} {action : Action (Walk World Thread) α} {e : UnwindError}
    (hrun : onCursor index action session = .error e after) :
    ∃ cursor walk, session.cursors[index]? = some cursor ∧
      action ⟨session.unwinder, session.world, cursor⟩ = .error e walk ∧
      after = session.withWalk index walk := by
  unfold onCursor at hrun
  split at hrun
  · cases hrun
  · rename_i cursor hcursor
    dsimp only at hrun
    split at hrun
    · cases hrun
    · rename_i e' walk haction
      cases hrun
      exact ⟨cursor, walk, hcursor, haction, rfl⟩

/-- A cursor that was left alone is still the one it was. -/
theorem withWalk_world {index : Nat} {cursor : Cursor Thread}
    (hcursor : session.cursors[index]? = some cursor) (world : World) :
    session.withWalk index ⟨session.unwinder, world, cursor⟩ =
      { session with world := world } := by
  have hsame : session.cursors.setIfInBounds index cursor = session.cursors := by
    apply Array.ext_getElem?
    intro other
    rw [Array.getElem?_setIfInBounds]
    split
    · rename_i hother
      subst hother
      obtain ⟨hlt, -⟩ := Array.getElem?_eq_some_iff.mp hcursor
      rw [if_pos hlt, hcursor]
    · rfl
  rw [withWalk, hsame]

/-- A register write that fails leaves the session as it was.  Only the write of
an image that lies in several words of memory can have changed the world before
it fails, when one of its words behind the first is refused, and then it does. -/
theorem refused_write_leaves (h : space.FailsCleanly) (session : Session World Thread)
    (index : Nat) (reg : Column) :
    (∀ value e after,
      onCursor index (Walk.setReg space reg value) session = .error e after → after = session) ∧
    (∀ image e after,
      onCursor index (Walk.setFpReg space reg image) session = .error e after →
        after = session ∨
          ∃ cursor count world,
            session.cursors[index]? = some cursor ∧
            0 < count ∧ count < space.arch.imageWords ∧
            space.ImageStopsAt cursor reg image count session.world e world ∧
            after = { session with world := world }) ∧
    (∀ image e cursor count world,
      reg < space.arch.numRegs → space.arch.isFp reg = true →
      session.cursors[index]? = some cursor →
      space.ImageStopsAt cursor reg image count session.world e world →
        onCursor index (Walk.setFpReg space reg image) session =
          .error e { session with world := world }) := by
  refine ⟨?_, ?_, ?_⟩
  · intro value e after hrun
    obtain ⟨cursor, walk, hcursor, hwrite, rfl⟩ := onCursor_of_error hrun
    rw [Walk.setReg_failsCleanly h _ _ _ _ _ hwrite, withWalk_world hcursor]
  · intro image e after hrun
    obtain ⟨cursor, walk, hcursor, hwrite, rfl⟩ := onCursor_of_error hrun
    rcases Walk.setFpReg_of_error h hwrite with rfl | ⟨count, world, hstops, rfl⟩
    · exact Or.inl (withWalk_world hcursor _)
    · rw [withWalk_world hcursor]
      cases count with
      | zero => exact Or.inl (by rw [hstops.eq_of_zero])
      | succ count =>
          exact Or.inr ⟨cursor, count + 1, world, hcursor, Nat.succ_pos _, hstops.lt_imageWords,
            hstops, rfl⟩
  · intro image e cursor count world hreg hfp hcursor hstops
    have hwrite : Walk.setFpReg space reg image ⟨session.unwinder, session.world, cursor⟩ =
        .error e ⟨session.unwinder, world, cursor⟩ :=
      Walk.setFpReg_of_imageStopsAt h hreg hfp hstops
    unfold onCursor
    rw [hcursor]
    dsimp only
    rw [hwrite, ← withWalk_world hcursor]
    rfl

/-- The world is the one word at `0x8010` that can be written; the word below it
holds a return address. -/
def scarceSpace : AddressSpace UInt64 Unit where
  arch := .x86_64
  loadWord world _ addr :=
    if addr = 0x8010 then
      .ok world
    else if addr = 0x8008 then
      .ok 0x2000
    else
      .error (.unreadable addr)
  storeWord _ addr value :=
    if addr = 0x8010 then
      set value
    else
      throw (.unreadable addr)
  loadReg _ _ reg := .ok (if reg = 16 then 0x1000 else 0x8000)
  storeReg _ reg _ := throw (.readOnlyRegister reg)
  loadFpReg _ _ reg := .error (.badRegister (UInt64.ofNat reg))
  storeFpReg _ reg _ := throw (.readOnlyRegister reg)
  findProc world _ ip := ⟨.error (.noInfo ip), world, 0⟩
  releaseProc world _ _ := world
  procName _ _ ip _ := .error (.noInfo ip)
  probe _ _ _ := .ok ()

theorem scarceSpace_failsCleanly : scarceSpace.FailsCleanly where
  storeWord _ _ value := .ite (.set value) (.throw _)
  storeReg _ _ _ := .throw _
  storeFpReg _ _ _ := .throw _

/-- A frame of 16 bytes that leaves a vector register in the two words from its
end on. -/
def spillingRegion : Region where
  name := none
  start := 0x1000
  stop := 0x1100
  returnAddress := 16
  ops := [⟨0, none, .defCfa 7 16⟩, ⟨0, none, .spill 16 (-8)⟩, ⟨0, none, .spill 17 0⟩]

/-- A cursor at the caller of that frame. -/
def climbedSession : Session UInt64 Unit :=
  [Request.openCursor (), .registerRegion spillingRegion, .step 0].foldl
    (fun session request => ((serve scarceSpace request).perform session).2) (make {} 0)

def wideImage : FpImage := 0x22222222222222221111111111111111

/-- The return address cannot be written at all, and of the vector register only
the lower half. -/
theorem refused_write_leaves_scarce :
    (∃ after, onCursor 0 (Walk.setReg scarceSpace 16 0x3000) climbedSession =
        .error (.unreadable 0x8008) after ∧ after = climbedSession) ∧
      onCursor 0 (Walk.setFpReg scarceSpace 17 wideImage) climbedSession =
        .error (.unreadable 0x8018) { climbedSession with world := 0x1111111111111111 } := by
  constructor
  · have hanswer : (onCursor 0 (Walk.setReg scarceSpace 16 0x3000)).answer climbedSession =
        .error (.unreadable 0x8008) := by decide +kernel
    obtain ⟨after, hrun⟩ := Action.answer_eq_error_iff.mp hanswer
    exact ⟨after, hrun,
      (refused_write_leaves scarceSpace_failsCleanly climbedSession 0 16).1 _ _ _ hrun⟩
  · have hfound : climbedSession.cursors[0]?.map (fun cursor =>
        (cursor.locs.of 17, cursor.validate)) = some (.memory 0x8010 true, false) := by
      decide +kernel
    obtain ⟨cursor, hcursor, hseen⟩ := Option.map_eq_some_iff.mp hfound
    obtain ⟨hloc, hvalidate⟩ := Prod.mk.inj hseen
    have hstops : scarceSpace.ImageStopsAt cursor 17 wideImage 1 climbedSession.world
        (.unreadable 0x8018) 0x1111111111111111 := by
      refine ⟨0x8010, true, [0x8010, 0x8018], hloc, rfl, ?_, (0x8018, 0x2222222222222222), rfl, ?_⟩
      · rw [hvalidate]
        rfl
      · rw [hvalidate]
        rfl
    exact (refused_write_leaves scarceSpace_failsCleanly climbedSession 0 17).2.2 _ _ _ _ _
      (by decide) (by decide) hcursor hstops

/-- The write of the vector register fails, and its lower half is in memory. -/
theorem refused_image_half_written :
    let refused := (onCursor 0 (Walk.setFpReg scarceSpace 17 wideImage)).perform climbedSession
    scarceSpace.FailsCleanly ∧
      refused.1 = .error (.unreadable 0x8018) ∧
      scarceSpace.loadWord climbedSession.world () 0x8010 = .ok 0 ∧
      scarceSpace.loadWord refused.2.world () 0x8010 = .ok 0x1111111111111111 :=
  ⟨scarceSpace_failsCleanly, by decide +kernel, by decide +kernel, by decide +kernel⟩

end Session
end StackWalk
