import Mathlib
import StackWalk.Arch.Shipped
import StackWalk.Proofs.Cfi.AcceptedEntry
import StackWalk.Proofs.Cfi.ParsedAgain
import StackWalk.Proofs.Cfi.TableLookUp
import StackWalk.Proofs.Cursor.StepErrors
import StackWalk.Proofs.Region.Registry

/-!
# The range that was reported

A procedure is reported by whoever parsed its FDE, and a step through it parses
the FDE once more, now that the start is known.  Unless the start itself is
stored relative to the function the second parse finds the same range, and a
step never says of an address in it that nothing covers it.
-/

namespace StackWalk

theorem Arch.doubled_eq_iff {arch : Arch} {word : UInt64} (h : word ≤ arch.wordMask) :
    (word + word) &&& arch.wordMask = word ↔ word = 0 := by
  have hpow : 2 ^ arch.wordBits ∣ 2 ^ 64 := pow_dvd_pow 2 arch.wordBits_le
  have hpos : 0 < 2 ^ arch.wordBits := Nat.two_pow_pos _
  rw [UInt64.le_iff_toNat_le, toNat_wordMask] at h
  rw [← UInt64.toNat_inj, ← UInt64.toNat_inj, toNat_and_wordMask, UInt64.toNat_add,
    Nat.mod_mod_of_dvd _ hpow]
  constructor
  · intro hdoubled
    by_cases hfits : word.toNat + word.toNat < 2 ^ arch.wordBits
    · rw [Nat.mod_eq_of_lt hfits] at hdoubled
      exact Nat.add_left_cancel hdoubled
    · rw [Nat.mod_eq_sub_mod (Nat.le_of_not_lt hfits), Nat.mod_eq_of_lt (by omega)] at hdoubled
      omega
  · intro hzero
    rw [hzero]
    exact Nat.zero_mod _

theorem Registry.contains_of_find? {registry : Registry} {ip : UInt64} {region : Region}
    (h : registry.find? ip = some region) : region.contains ip = true :=
  (Option.filter_eq_some_iff.mp h).2

namespace Cfi

/-- What parsing the FDE of a reported procedure once more gives. -/
def Fde.parsedAgain (target : Target) (fde : Fde) (frameSection : FrameSection)
    (bases : PointerBases) : Except UnwindError Fde :=
  parseFde target fde.address frameSection (fde.procInfo frameSection bases).pointerBases

end Cfi

namespace Walk

/-! ## Rows of a reported procedure -/

/-- Unless the start is stored relative to the function, the row of an address
in the reported range is not missing for want of unwind information. -/
theorem rowIn_hasInfo {target seen : Target} (hconcurs : target.Concurs seen)
    (hmemory : seen.FailsUnreadable) {address : UInt64} {frameSection : FrameSection}
    {bases : PointerBases} {fde : Cfi.Fde}
    (hparse : Cfi.parseFde target address frameSection bases = .ok fde)
    (hencoding : fde.cie.augmentation.fdeEncoding.FunctionFree) {ws : Workspace} {ip : UInt64}
    {predicates : Predicates} {e : UnwindError} (hip : fde.contains ip = true)
    (h : (rowIn seen ws (fde.procInfo frameSection bases) ip predicates).1 = .error e) :
    e.HasInfo := by
  obtain rfl := (Cfi.parseFde_accepted hparse).1
  have hentry : (fde.procInfo frameSection bases).unwindInfo = .dwarf fde.address frameSection :=
    rfl
  unfold rowIn at h
  simp only [hentry] at h
  cases hagain : Cfi.parseFde seen fde.address frameSection
      (fde.procInfo frameSection bases).pointerBases with
  | error e' =>
      rw [hagain] at h
      cases h
      exact (Cfi.parseFde_ofEntry hmemory hagain).hasInfo
  | ok again =>
      obtain ⟨personality, rfl⟩ := Cfi.parseFde_again hconcurs hparse hencoding hagain
      rw [hagain] at h
      dsimp only at h
      rw [if_pos (show (fde.withPersonality personality).contains ip = true from hip)] at h
      exact Cfi.rowAt_hasInfo hmemory h

/-! ## Rules of a frame in the range -/

variable {World Thread : Type} {space : AddressSpace World Thread}

theorem freshRules_hasInfo {walk found : Walk World Thread} {generation : UInt64}
    {key : CacheKey} {info : ProcInfo} {provided : Bool}
    (hfound : findProc space key.ip walk = .ok (info, provided) found)
    (hrow : ∀ e, (rowIn (found.target space) found.cursor.workspace info key.ip
      found.cursor.predicates).1 = .error e → e.HasInfo) {e : UnwindError}
    (h : (freshRules space generation key).answer walk = .error e) : e.HasInfo := by
  unfold Action.answer Action.perform at h
  rw [freshRules_of_found hfound] at h
  have hkept := (keepRules_answer generation key info _ _).symm.trans h
  cases hbuilt : (rowIn (found.target space) found.cursor.workspace info key.ip
      found.cursor.predicates).1 with
  | error e' =>
      rw [hbuilt] at hkept
      cases hkept
      exact hrow _ hbuilt
  | ok row =>
      rw [hbuilt] at hkept
      cases hkept

/-- Asked for the address that the rules of the frame are looked up for, the
address space reports a procedure with the address in its range.  It has read
`target`, and what the cursor reads then is the same. -/
structure Reports (space : AddressSpace World Thread) (walk : Walk World Thread)
    (target : Target) (info : ProcInfo) : Prop where
  answer : (space.findProc walk.world walk.cursor.thread walk.cursor.lookupIp).answer = .ok info
  covers : info.contains walk.cursor.lookupIp = true
  concurs : target.Concurs ((asked space walk walk.cursor.lookupIp).target space)

/-- What a header reports, read without probing, was parsed with function
relative pointers relative to zero. -/
theorem Reports.of_header {walk : Walk World Thread} {target : Target} {hdr : UInt64}
    {info : ProcInfo}
    (htarget : target = space.target (asked space walk walk.cursor.lookupIp).world
      walk.cursor.thread false)
    (hprovider : (space.findProc walk.world walk.cursor.thread walk.cursor.lookupIp).answer =
      Cfi.findProcInHeader target hdr walk.cursor.lookupIp)
    (hfound : Cfi.findProcInHeader target hdr walk.cursor.lookupIp = .ok info) :
    Reports space walk target info ∧
      ∃ fde, Cfi.parseFde target fde.address .ehFrame { data := hdr } = .ok fde ∧
        info = fde.procInfo .ehFrame { data := hdr } := by
  obtain ⟨fde, hparse, hinfo, hcovers⟩ := Cfi.findProcInHeader_parsed hfound
  refine ⟨⟨hprovider.trans hfound, hcovers, ?_⟩, fde, hparse, hinfo⟩
  rw [htarget]
  exact space.target_concurs _ _ _ _

/-- The rules of a frame in the range of a reported procedure are not missing
for want of unwind information.  A region that is registered for the address
comes before the procedure. -/
theorem frameRules_hasInfo {walk : Walk World Thread} {target : Target} {address : UInt64}
    {frameSection : FrameSection} {bases : PointerBases} {fde : Cfi.Fde}
    (hparse : Cfi.parseFde target address frameSection bases = .ok fde)
    (hencoding : fde.cie.augmentation.fdeEncoding.FunctionFree)
    (hspace : ∀ world thread validate, (space.target world thread validate).FailsPlainly)
    (hreports : Reports space walk target (fde.procInfo frameSection bases)) {e : UnwindError}
    {after : Walk World Thread} (h : frameRules space walk = .error e after) : e.HasInfo := by
  rcases frameRules_cases space walk with ⟨slot, entry, -, hhit⟩ | hmissed
  · rw [hhit] at h
    cases h
  · have hanswer : (freshRules space walk.looked.2.generation walk.key).answer
        { walk with unwinder := walk.looked.2 } = .error e :=
      Action.answer_eq_error_iff.mpr ⟨after, hmissed.symm.trans h⟩
    cases hregion : walk.looked.2.registry.find? walk.key.ip with
    | some region =>
        exact freshRules_hasInfo (findProc_of_region hregion)
          (fun e he => Region.rowAt_hasInfo (Registry.contains_of_find? hregion) he) hanswer
    | none =>
        have hfound : findProc space walk.key.ip { walk with unwinder := walk.looked.2 } = _ :=
          findProc_of_no_region hregion
        simp only [key, hreports.answer, hreports.covers, if_true] at hfound
        exact freshRules_hasInfo hfound
          (fun e he => rowIn_hasInfo hreports.concurs (hspace _ _ _).memory hparse hencoding
            hreports.covers he) hanswer

theorem step_answer_hasInfo {walk : Walk World Thread} {target : Target} {address : UInt64}
    {frameSection : FrameSection} {bases : PointerBases} {fde : Cfi.Fde}
    (hparse : Cfi.parseFde target address frameSection bases = .ok fde)
    (hencoding : fde.cie.augmentation.fdeEncoding.FunctionFree)
    (hspace : ∀ world thread validate, (space.target world thread validate).FailsPlainly)
    (hreports : Reports space walk target (fde.procInfo frameSection bases)) {e : UnwindError}
    (h : (step space).answer walk = .error e) : e.HasInfo := by
  obtain ⟨after, hstep⟩ := Action.answer_eq_error_iff.mp h
  exact step_hasInfo hspace
    (fun e after hrules => frameRules_hasInfo hparse hencoding hspace hreports hrules) hstep

/-- The FDE of a reported procedure is parsed once more, relative to the start
that was reported.  Unless the start is stored relative to the function, the
second parse finds the same entry, up to a personality that is stored so, and
no step from the reported range says that nothing covers it.  A start that is
stored relative to the function, and not as the address of it, is counted
twice. -/
theorem reported_parsed_again {target : Target} {address : UInt64} {frameSection : FrameSection}
    {bases : PointerBases} {fde : Cfi.Fde}
    (h : Cfi.parseFde target address frameSection bases = .ok fde) :
    (fde.cie.augmentation.fdeEncoding.FunctionFree →
      (∀ other again, target.Concurs other →
        fde.parsedAgain other frameSection bases = .ok again →
        ∃ personality, again = fde.withPersonality personality) ∧
      (Cfi.CieFree target bases fde.cie.address →
        fde.parsedAgain target frameSection bases = .ok fde) ∧
      ∀ (space : AddressSpace World Thread) (walk : Walk World Thread),
        (∀ world thread validate, (space.target world thread validate).FailsPlainly) →
        Reports space walk target (fde.procInfo frameSection bases) →
        ∀ ip, (step space).answer walk ≠ .error (.noInfo ip)) ∧
    (bases.function = 0 → fde.cie.augmentation.fdeEncoding.base = .ok .function →
      fde.cie.augmentation.fdeEncoding.isIndirect = false →
      ∀ other again, target.Concurs other →
        fde.parsedAgain other frameSection bases = .ok again →
        again.start = (fde.start + fde.start) &&& target.arch.wordMask ∧
          (again.start = fde.start ↔ fde.start = 0)) := by
  obtain ⟨haddress, -, ⟨hlt, hmask⟩, -⟩ := Cfi.parseFde_accepted h
  obtain rfl := haddress
  refine ⟨fun hencoding => ⟨fun other again hconcurs hagain => ?_, fun hfree => ?_,
    fun space walk hspace hreports ip hanswer => ?_⟩,
    fun hfunction hbase hdirect other again hconcurs hagain => ?_⟩
  · exact Cfi.parseFde_again hconcurs h hencoding hagain
  · exact Cfi.parseFde_free h hencoding hfree fde.start
  · exact (step_answer_hasInfo h hencoding hspace hreports hanswer).ne_noInfo ip rfl
  · have hstart := Cfi.parseFde_doubled hconcurs h hfunction hbase hdirect hagain
    refine ⟨hstart, ?_⟩
    rw [hstart]
    exact Arch.doubled_eq_iff (UInt64.le_trans (UInt64.le_of_lt hlt) hmask)

/-! ## A start relative to the function -/

/-- A header without a table, and a chain of a CIE with the augmentation `zR`
and an FDE.  The first byte of `encoding` is that of the start of the FDE, and
what is behind it and behind the FDE says that the CFA is above the stack
pointer and the return address below it. -/
def headedEntries (encoding : UInt64) : List UInt64 :=
  [0xffff1b01, 0x04,
    0x10, 0, 0x00527a01, 0x01087c01, encoding,
    0x10, 0x18, 0x3000, 0x10, 0x00018800,
    0]

def headedTarget (encoding : UInt64) : Target where
  arch := .x86
  loadWord addr :=
    if addr = 0x2000 then
      .ok 0x5000
    else
      match (headedEntries encoding)[((addr - 0x1000) / 4).toNat]? with
      | some word => .ok word
      | none => .error (.unreadable addr)
  loadReg reg := .ok (if reg = 4 then 0x2000 else 1)
  loadFpReg reg := .error (.badRegister (UInt64.ofNat reg))

/-- An address space whose procedures are those of the header. -/
def headedSpace (encoding : UInt64) : AddressSpace Unit Unit where
  arch := .x86
  loadWord _ _ := (headedTarget encoding).loadWord
  storeWord _ addr _ := throw (.unreadable addr)
  loadReg _ _ := (headedTarget encoding).loadReg
  storeReg _ reg _ := throw (.readOnlyRegister reg)
  loadFpReg _ _ := (headedTarget encoding).loadFpReg
  storeFpReg _ reg _ := throw (.readOnlyRegister reg)
  findProc world _ ip := ⟨Cfi.findProcInHeader (headedTarget encoding) 0x1000 ip, world, 0⟩
  releaseProc world _ _ := world
  procName _ _ ip _ := .error (.noInfo ip)
  probe _ _ _ := .ok ()

def headedWalk : Walk Unit Unit where
  unwinder := Unwinder.make { policy := .none }
  world := ()
  cursor := {
    thread := ()
    ip := 0x3004
    cfa := 0x2000
    locs := Locations.live .x86
    procInfo := none
    usePrevious := false
    lastStep := none
    validate := false
    predicates := {}
    hint := none
    workspace := .empty }

def headedFde (encoding : PointerEncoding) (start : UInt64) : Cfi.Fde where
  address := 0x101c
  cie := {
    address := 0x1008
    version := 1
    augmentation := { Cfi.Augmentation.none with hasData := true, fdeEncoding := encoding }
    codeAlign := 1
    dataAlign := -4
    returnAddress := 8
    program := ⟨0x1019, 0x101c⟩ }
  start := start
  stop := start + 0x10
  lsda := 0
  program := ⟨0x102d, 0x1030⟩

theorem headedSpace_failsPlainly (encoding : UInt64) (world thread : Unit) (validate : Bool) :
    ((headedSpace encoding).target world thread validate).FailsPlainly := by
  constructor
  · intro addr e h
    have hload : (headedTarget encoding).loadWord addr = .error e := by
      cases validate <;> exact h
    unfold headedTarget at hload
    dsimp only at hload
    split at hload
    · cases hload
    · split at hload <;> cases hload
      exact ⟨addr, rfl⟩
  · intro reg e h
    cases h

theorem headed_cieFree :
    Cfi.CieFree (headedTarget 0x04040c00) { data := 0x1000 } 0x1008 := by
  intro header fields fieldsStop data hheader hfields _ _
  have hknown : Cfi.entryHeader (headedTarget 0x04040c00) 0x1008 =
      .ok ⟨0x100c, 0, false, 0x1010, 0x101c⟩ := by cbv
  obtain rfl := Except.ok.inj (hknown.symm.trans hheader)
  have hread : Cfi.readCieFields (headedTarget 0x04040c00) 0x1010 =
      .ok ((headedFde .absolute 0x3000).cie.fields [0x7a, 0x52]) 0x1017 := by cbv
  obtain ⟨rfl, -⟩ := EStateM.Result.ok.inj (hread.symm.trans hfields)
  exact fun _ _ _ => trivial

theorem reported_parsed_again_headed :
    ((headedFde .absolute 0x3000).parsedAgain (headedTarget 0x04040c00) .ehFrame
        { data := 0x1000 } = .ok (headedFde .absolute 0x3000) ∧
      ∀ ip, (step (headedSpace 0x04040c00)).answer headedWalk ≠ .error (.noInfo ip)) ∧
    ∀ again, (headedFde ⟨0x40⟩ 0x3000).parsedAgain (headedTarget 0x04040c40) .ehFrame
      { data := 0x1000 } = .ok again → again.start = 0x6000 := by
  refine ⟨?_, fun again hagain => ?_⟩
  · have hparse : Cfi.parseFde (headedTarget 0x04040c00) 0x101c .ehFrame { data := 0x1000 } =
        .ok (headedFde .absolute 0x3000) := by cbv
    have hencoding : (headedFde .absolute 0x3000).cie.augmentation.fdeEncoding.FunctionFree := by
      unfold PointerEncoding.FunctionFree
      decide
    have hreports : Reports (headedSpace 0x04040c00) headedWalk (headedTarget 0x04040c00)
        ((headedFde .absolute 0x3000).procInfo .ehFrame { data := 0x1000 }) :=
      (Reports.of_header rfl rfl (by cbv)).1
    obtain ⟨-, hsame, hstep⟩ := (reported_parsed_again hparse).1 hencoding
    exact ⟨hsame headed_cieFree, hstep _ _ (headedSpace_failsPlainly _) hreports⟩
  · have hparse : Cfi.parseFde (headedTarget 0x04040c40) 0x101c .ehFrame { data := 0x1000 } =
        .ok (headedFde ⟨0x40⟩ 0x3000) := by cbv
    have hdoubled := (@reported_parsed_again Unit Unit _ _ _ _ _ hparse).2 rfl rfl rfl _ again
      (.refl _) hagain
    exact hdoubled.1

/-- The header reports the address of the frame in the range from `0x3000` on,
and the step through the reported procedure looks for it from `0x6000` on. -/
theorem step_misses_reported_range :
    Cfi.parseFde (headedTarget 0x04040c40) 0x101c .ehFrame { data := 0x1000 } =
        .ok (headedFde ⟨0x40⟩ 0x3000) ∧
      (headedFde ⟨0x40⟩ 0x3000).parsedAgain (headedTarget 0x04040c40) .ehFrame
        { data := 0x1000 } = .ok (headedFde ⟨0x40⟩ 0x6000) ∧
      Reports (headedSpace 0x04040c40) headedWalk (headedTarget 0x04040c40)
        ((headedFde ⟨0x40⟩ 0x3000).procInfo .ehFrame { data := 0x1000 }) ∧
      (step (headedSpace 0x04040c40)).answer headedWalk = .error (.noInfo 0x3004) :=
  ⟨by cbv, by cbv, (Reports.of_header rfl rfl (by cbv)).1, by cbv⟩

end Walk
end StackWalk
