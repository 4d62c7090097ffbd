import StackWalk.Proofs.Caller.Substitution
import StackWalk.Proofs.Cursor.CodePatterns
import StackWalk.Proofs.Cursor.Step
import StackWalk.Proofs.Session.RegisterAccess

/-!
# Registers saved in registers

A row can say that a register of the caller is in another register.  The caller
then has it where the frame has that other one, marked with the class of the
column it is read as, and this class decides which register file or how much of
memory is read.  So within a class the value is carried over; from one class to
the other it is carried over where it was computed, and where an integer is the
low word of an image in memory.
-/

namespace StackWalk

/-! ## Values of either class -/

namespace ValueKind

/-- The kind of value that a column has. -/
def ofColumn (arch : Arch) (reg : Column) : ValueKind :=
  if arch.isFp reg then image else integer

def widen : (kind : ValueKind) → kind.Value → FpImage
  | integer, word => word.toBitVec.setWidth 128
  | image, whole => whole

/-- What a column of this kind has room for. -/
def cut : ValueKind → FpImage → FpImage
  | integer, whole => (whole.setWidth 64).setWidth 128
  | image, whole => whole

/-- The value at a location, read as this kind. -/
def readWide (kind : ValueKind) (target : Target) (reg : Column) (loc : Location) :
    Except UnwindError FpImage :=
  kind.widen <$> kind.read target reg loc

variable {target : Target} {reg other : Column} {kind : ValueKind}

theorem cut_widen (value : kind.Value) : kind.cut (kind.widen value) = kind.widen value := by
  cases kind with
  | image => rfl
  | integer => exact congrArg (BitVec.setWidth 128) (BitVec.setWidth_setWidth_of_le _ (by decide))

theorem widen_ofWord (kind : ValueKind) (word : UInt64) :
    kind.widen (kind.ofWord word) = word.toBitVec.setWidth 128 := by
  cases kind <;> rfl

/-- Only for a lost register does it matter which column is read. -/
theorem readWide_of_ok {loc : Location} {value : FpImage}
    (h : kind.readWide target other loc = .ok value) :
    kind.readWide target reg loc = .ok (kind.cut value) := by
  obtain ⟨read, hread, rfl⟩ := map_eq_ok_iff.mp h
  have hsame : kind.read target reg loc = .ok read := by
    cases loc with
    | lost => simp at hread
    | register source fp => cases kind <;> exact hread
    | memory addr fp | value word => simpa using hread
  rw [readWide, hsame, cut_widen]
  rfl

end ValueKind

/-- An integer in memory is the low word of an image there: an image is a single
word, or words are whole and the lowest comes first. -/
def Arch.LowWordFirst (arch : Arch) : Prop :=
  arch.imageWords = 1 ∨ arch.endian = .little ∧ arch.addressSize = 8

theorem Arch.imageAddresses_head {arch : Arch} {addr : UInt64} {addrs : List UInt64}
    (h : arch.imageAddresses addr = .ok addrs) :
    ∃ rest, addrs = addr :: rest ∧ rest.length + 1 = arch.imageWords := by
  have hpos : 0 < arch.imageWords := lt_of_lt_of_le one_pos (le_max_right _ _)
  obtain ⟨more, hmore⟩ := Nat.exists_eq_add_one_of_ne_zero hpos.ne'
  unfold imageAddresses at h
  dsimp only at h
  split at h
  · cases h
  · cases h
    refine ⟨(List.range more).map fun i => addr + UInt64.ofNat (i + 1) * arch.wordSize, ?_, ?_⟩
    · rw [hmore, List.range_succ_eq_map, List.map_cons, List.map_map]
      simp [Function.comp_def]
    · rw [List.length_map, List.length_range, hmore]

theorem Arch.low_imageOfWords {arch : Arch} (h : arch.LowWordFirst) {word : UInt64}
    {rest : List UInt64} (hlength : rest.length + 1 = arch.imageWords) :
    (arch.imageOfWords (word :: rest)).setWidth 64 = word.toBitVec := by
  rcases h with hone | ⟨hlittle, hsize⟩
  · have hrest : rest = [] := List.length_eq_zero_iff.mp (by omega)
    subst hrest
    unfold imageOfWords
    cases arch.endian <;> simp
  · unfold imageOfWords
    rw [hlittle, hsize]
    simp only [List.foldr_cons]
    apply BitVec.eq_of_getLsbD_eq
    intro i hi
    simp [hi]

theorem length_of_mapM {α β : Type} {f : α → Except UnwindError β} {l : List α}
    {results : List β} (h : l.mapM f = .ok results) : results.length = l.length := by
  induction l generalizing results with
  | nil =>
      cases h
      rfl
  | cons a rest ih =>
      rw [List.mapM_cons] at h
      obtain ⟨b, -, h⟩ := bind_eq_ok_iff.mp h
      obtain ⟨others, hothers, hresults⟩ := bind_eq_ok_iff.mp h
      cases hresults
      rw [List.length_cons, List.length_cons, ih hothers]

/-- Where the low word comes first, an image in memory is read as an integer by
what of it fits into one. -/
theorem ValueKind.readWide_low {target : Target} (h : target.arch.LowWordFirst)
    {reg other : Column} {addr : UInt64} {fp : Bool} {value : FpImage}
    (hvalue : image.readWide target other (.memory addr fp) = .ok value) :
    integer.readWide target reg (.memory addr fp) = .ok (integer.cut value) := by
  obtain ⟨whole, hwhole, rfl⟩ := map_eq_ok_iff.mp hvalue
  obtain ⟨addrs, haddrs, hwhole⟩ := bind_eq_ok_iff.mp hwhole
  obtain ⟨words, hwords, hjoined⟩ := bind_eq_ok_iff.mp hwhole
  cases hjoined
  obtain ⟨rest, rfl, hcount⟩ := Arch.imageAddresses_head haddrs
  rw [List.mapM_cons] at hwords
  obtain ⟨word, hword, hwords⟩ := bind_eq_ok_iff.mp hwords
  obtain ⟨others, hothers, hsplit⟩ := bind_eq_ok_iff.mp hwords
  cases hsplit
  have hlow : (target.arch.imageOfWords (word :: others)).setWidth 64 = word.toBitVec :=
    Arch.low_imageOfWords h (by rw [length_of_mapM hothers, hcount])
  have hread : integer.read target reg (.memory addr fp) = .ok word := hword
  rw [readWide, hread, cut, widen, hlow]
  rfl

/-- The value of the column `source` at this location is one of the column `reg`
too: the columns are of one class, the value was computed, or `reg` gets the low
word of an image. -/
def Location.Carries (arch : Arch) (reg source : Column) (loc : Location) : Prop :=
  arch.isFp reg = arch.isFp source ∨ (∃ word, loc = .value word) ∨
    (∃ addr fp, loc = .memory addr fp) ∧ arch.isFp reg = false ∧ arch.LowWordFirst

theorem ValueKind.readWide_carried {target : Target} {reg source : Column} {loc : Location}
    {value : FpImage} (h : loc.Carries target.arch reg source)
    (hvalue : (ofColumn target.arch source).readWide target source loc = .ok value) :
    (ofColumn target.arch reg).readWide target reg loc =
      .ok ((ofColumn target.arch reg).cut value) := by
  have hclass (hsame : target.arch.isFp reg = target.arch.isFp source) :
      (ofColumn target.arch reg).readWide target reg loc =
        .ok ((ofColumn target.arch reg).cut value) := by
    have hkind : ofColumn target.arch reg = ofColumn target.arch source := by
      rw [ofColumn, ofColumn, hsame]
    rw [hkind]
    exact readWide_of_ok hvalue
  rcases h with hsame | ⟨word, rfl⟩ | ⟨⟨addr, fp, rfl⟩, hinteger, hlow⟩
  · exact hclass hsame
  · have hwide (kind : ValueKind) (column : Column) :
        kind.readWide target column (.value word) = .ok (word.toBitVec.setWidth 128) := by
      rw [readWide, read_value, ← widen_ofWord kind]
      rfl
    rw [hwide] at hvalue ⊢
    cases hvalue
    rw [← widen_ofWord, cut_widen]
  · cases hsource : target.arch.isFp source with
    | false => exact hclass (hinteger.trans hsource.symm)
    | true =>
        rw [ofColumn, hsource] at hvalue
        rw [ofColumn, hinteger]
        exact readWide_low hlow hvalue

/-! ## Rules that name a register -/

/-- The rule is the last one for the column, so it decides where the column is. -/
def Governs (rules : List (Column × RegisterRule)) (reg : Column) (rule : RegisterRule) : Prop :=
  ∃ before rest, rules = before ++ (reg, rule) :: rest ∧ ∀ entry ∈ rest, entry.1 ≠ reg

/-- The rule says that a column is in the register `source` of the frame, itself
or by an expression that ends in one. -/
def RegisterRule.Names (target : Target) (locs : Locations) (cfa : UInt64) (source : Column)
    (rule : RegisterRule) : Prop :=
  rule = .inRegister source ∨
    ∃ addr, rule = .expression addr ∧
      Expression.evaluate target locs.of addr (some cfa) = .ok (.register source)

section Rules

variable {target : Target} {locs caller before : Locations} {cfa : UInt64} {reg source : Column}
  {rule : RegisterRule} {rules : List (Column × RegisterRule)}

theorem placed_of_names (h : rule.Names target locs cfa source) (reg : Column) :
    placed target locs cfa reg rule =
      .ok ((locs.of source).withFp (target.arch.isFp reg)) := by
  rcases h with rfl | ⟨addr, rfl, hresult⟩
  · rfl
  · simp only [placed, resolveRule, hresult, ok_bind, pure_eq_ok]

theorem of_resolveRules_of_ne (hne : ∀ entry ∈ rules, entry.1 ≠ reg)
    (h : resolveRules target locs cfa rules before = .ok caller) :
    caller.of reg = before.of reg := by
  induction rules generalizing before with
  | nil =>
      cases h
      rfl
  | cons entry rest ih =>
      obtain ⟨first, rule⟩ := entry
      rw [resolveRules_cons] at h
      obtain ⟨loc, -, h⟩ := bind_eq_ok_iff.mp h
      have hfirst : first ≠ reg := hne _ List.mem_cons_self
      rw [ih (fun entry hentry => hne entry (List.mem_cons_of_mem _ hentry)) h,
        Locations.of_put_ne hfirst]

theorem Governs.resolveRules (h : Governs rules reg rule) (hkept : reg < maxColumns)
    (hresolved : resolveRules target locs cfa rules before = .ok caller) :
    placed target locs cfa reg rule = .ok (caller.of reg) := by
  obtain ⟨earlier, rest, rfl, hlast⟩ := h
  induction earlier generalizing before with
  | nil =>
      rw [List.nil_append, resolveRules_cons] at hresolved
      obtain ⟨loc, hloc, hrest⟩ := bind_eq_ok_iff.mp hresolved
      rw [of_resolveRules_of_ne hlast hrest, Locations.of_put_self hkept, hloc]
  | cons entry earlier ih =>
      obtain ⟨first, other⟩ := entry
      rw [List.cons_append, resolveRules_cons] at hresolved
      obtain ⟨loc, -, hrest⟩ := bind_eq_ok_iff.mp hresolved
      exact ih hrest

/-- Applying the rules puts a column where the rule that governs it does. -/
theorem Governs.applyRules {cfaRule : CfaRule} (h : Governs rules reg rule)
    (hkept : reg < maxColumns)
    (happlied : applyRules target locs cfaRule rules = .ok (cfa, caller)) :
    placed target locs cfa reg rule = .ok (caller.of reg) := by
  unfold StackWalk.applyRules at happlied
  obtain ⟨frameCfa, -, happlied⟩ := bind_eq_ok_iff.mp happlied
  obtain ⟨resolved, hresolved, happlied⟩ := bind_eq_ok_iff.mp happlied
  split at happlied
  · cases happlied
    exact h.resolveRules hkept hresolved
  · rename_i hunruled
    cases happlied
    have hsp : target.arch.sp ≠ reg := by
      rintro rfl
      obtain ⟨earlier, rest, rfl, -⟩ := h
      exact hunruled (List.any_eq_true.mpr ⟨_, List.mem_append_cons_self, beq_self_eq_true _⟩)
    rw [Locations.of_put_ne hsp]
    exact h.resolveRules hkept hresolved

end Rules

/-! ## Columns of a frame and of its caller -/

namespace Walk

open Heuristic

variable {World Thread : Type} {space : AddressSpace World Thread}
  {walk between after : Walk World Thread} {reg source : Column} {script : Script}
  {info : ProcInfo} {rule : RegisterRule}

/-- The value of a column, by the accessor of its class. -/
def readColumn (space : AddressSpace World Thread) (reg : Column) :
    Action (Walk World Thread) FpImage :=
  if space.arch.isFp reg then
    getFpReg space reg
  else
    ValueKind.integer.widen <$> getReg space reg

theorem getFpReg_answer (space : AddressSpace World Thread) (reg : Column)
    (walk : Walk World Thread) :
    (getFpReg space reg).answer walk =
      if reg < space.arch.numRegs ∧ space.arch.isFp reg = true then
        (walk.cursor.locs.of reg).readFp (walk.target space) reg
      else
        .error (.badRegister (UInt64.ofNat reg)) := by
  unfold Action.answer Action.perform
  rw [getFpReg, location_bind, Arch.checkColumn]
  by_cases hreg : reg < space.arch.numRegs
  · simp only [hreg, if_true, true_and, Action.lift_ok_bind_apply, Action.get_bind_apply]
    cases space.arch.isFp reg with
    | false => rfl
    | true => cases (walk.cursor.locs.of reg).readFp (walk.target space) reg <;> rfl
  · simp [hreg]

/-- The instruction pointer is the cursor's own; every other column is read where
the frame has it. -/
theorem readColumn_answer (space : AddressSpace World Thread) (reg : Column)
    (walk : Walk World Thread) :
    (readColumn space reg).answer walk =
      if reg < space.arch.numRegs then
        if reg = space.arch.ip ∧ space.arch.isFp reg = false then
          .ok (ValueKind.integer.widen walk.cursor.ip)
        else
          (ValueKind.ofColumn space.arch reg).readWide (walk.target space) reg
            (walk.cursor.locs.of reg)
      else
        .error (.badRegister (UInt64.ofNat reg)) := by
  unfold readColumn ValueKind.ofColumn
  cases hfp : space.arch.isFp reg with
  | true =>
      simp only [if_true, getFpReg_answer, hfp, and_true, Bool.true_eq_false, and_false, if_false]
      refine if_congr Iff.rfl ?_ rfl
      exact (id_map _).symm
  | false =>
      have hmap : (ValueKind.integer.widen <$> getReg space reg).answer walk =
          ValueKind.integer.widen <$> (getReg space reg).answer walk := by
        unfold Action.answer Action.perform
        rw [Action.map_apply]
        cases getReg space reg walk <;> rfl
      simp only [Bool.false_eq_true, if_false, and_true, hmap, getReg_answer, hfp]
      split
      · split <;> rfl
      · rfl

theorem lt_numRegs_of_readColumn {value : FpImage}
    (h : (readColumn space reg).answer walk = .ok value) : reg < space.arch.numRegs := by
  by_contra hreg
  rw [readColumn_answer, if_neg hreg] at h
  cases h

/-- A step that went by the rules of the frame has applied them. -/
theorem applied_of_step (hrules : frameRules space walk = .ok (script, info) between)
    (hstep : step space walk = .ok true after)
    (hby : after.cursor.lastStep.any StepMethod.byRules = true) :
    ∃ cfa locs ip,
      applyRules (between.target space) walk.cursor.locs script.cfa script.rules =
        .ok (cfa, locs) ∧
      callerIp (between.target space) between.cursor (callerByRules script info cfa locs) =
        .ok (some ip) ∧
      after = { between with
        cursor := commit space.arch between.cursor (callerByRules script info cfa locs) ip } := by
  rcases step_cases space walk with
    ⟨stayed, -, hnone | ⟨e, herror⟩⟩ | ⟨unwound, found, ip, hfound, hip, hmoved⟩
  · rw [hnone] at hstep
    cases hstep
  · rw [herror] at hstep
    cases hstep
  · rw [hmoved] at hstep
    cases hstep
    have hruled : unwound.method.byRules = true := hby
    cases finds_of_unwindFrame hfound with
    | signal hsignal =>
        rw [(SignalFrame.step_guessed hsignal).2] at hruled
        cases hruled
    | heuristics _ hguessed =>
        rw [(unwindByHeuristics_guessed hguessed).2] at hruled
        cases hruled
    | @rules _ _ cfa locs _ hsame happlied =>
        obtain ⟨hfoundRules, rfl⟩ := EStateM.Result.ok.inj (hrules.symm.trans hsame)
        obtain ⟨rfl, rfl⟩ := Prod.mk.inj hfoundRules
        obtain ⟨hint, workspace, hcursor⟩ := (frameRules_searched.of_ok hrules).cursor
        have hlocs : between.cursor.locs = walk.cursor.locs := by rw [hcursor]
        rw [hlocs] at happlied
        exact ⟨cfa, locs, ip, happlied, hip, rfl⟩

/-- Where the row of a frame says that a column of the caller is in a register of
the frame, the caller has it there and reads it by the accessor of its own class.
So it reads the frame's value where the location carries it from the one class to
the other; elsewhere it reads the register of that number in the other file, or
another amount of memory.  The instruction pointer is the one that the step found. -/
theorem step_carries_saved (hkept : space.arch.numRegs ≤ maxColumns)
    (hrules : frameRules space walk = .ok (script, info) between)
    (hstep : step space walk = .ok true after)
    (hby : after.cursor.lastStep.any StepMethod.byRules = true)
    (hreg : reg < space.arch.numRegs) (hgoverns : Governs script.rules reg rule)
    (hnames : rule.Names (between.target space) walk.cursor.locs after.cursor.cfa source) :
    let loc := walk.cursor.locs.of source
    let kind := ValueKind.ofColumn space.arch reg
    (reg ≠ space.arch.ip →
      after.cursor.locs.of reg = loc.withFp (space.arch.isFp reg) ∧
      ∀ unwinder world,
        (readColumn space reg).answer ⟨unwinder, world, after.cursor⟩ =
          kind.readWide (space.target world walk.cursor.thread walk.cursor.validate) reg loc) ∧
    (reg ≠ space.arch.ip → source ≠ space.arch.ip → loc.Carries space.arch reg source →
      ∀ unwinder world value,
        (readColumn space source).answer ⟨unwinder, world, walk.cursor⟩ = .ok value →
          (readColumn space reg).answer ⟨unwinder, world, after.cursor⟩ =
            .ok (kind.cut value)) ∧
    (reg = space.arch.ip → space.arch.isFp reg = false →
      (∀ unwinder world,
        (readColumn space reg).answer ⟨unwinder, world, after.cursor⟩ =
          .ok (ValueKind.integer.widen after.cursor.ip)) ∧
      (script.returnAddress = reg → ∃ stored,
        loc.read (after.target space) reg = .ok stored ∧
          after.cursor.ip =
            if script.raSigned then stored &&& ~~~space.arch.raSignBits else stored)) := by
  intro loc kind
  obtain ⟨cfa, locs, ip, happlied, hip, hafter⟩ := applied_of_step hrules hstep hby
  obtain ⟨hint, workspace, hsearched⟩ := (frameRules_searched.of_ok hrules).cursor
  have hcursor : after.cursor =
      commit space.arch between.cursor (callerByRules script info cfa locs) ip := by
    rw [hafter]
  have hplaced : locs.of reg = loc.withFp (space.arch.isFp reg) := by
    have hgoverned := hgoverns.applyRules (lt_of_lt_of_le hreg hkept) happlied
    have hcfa : after.cursor.cfa = cfa := by rw [hcursor]; rfl
    rw [hcfa] at hnames
    rw [placed_of_names hnames] at hgoverned
    exact (Except.ok.inj hgoverned).symm
  have hlocs : reg ≠ space.arch.ip →
      after.cursor.locs.of reg = loc.withFp (space.arch.isFp reg) := by
    intro hne
    rw [hcursor]
    exact (Locations.of_put_ne (Ne.symm hne)).trans hplaced
  have hcaller : reg ≠ space.arch.ip → ∀ unwinder world,
      (readColumn space reg).answer ⟨unwinder, world, after.cursor⟩ =
        kind.readWide (space.target world walk.cursor.thread walk.cursor.validate) reg loc := by
    intro hne unwinder world
    have htarget : target space ⟨unwinder, world, after.cursor⟩ =
        space.target world walk.cursor.thread walk.cursor.validate := by
      rw [hcursor, hsearched]
      rfl
    rw [readColumn_answer, if_pos hreg, if_neg fun h => hne h.1, hlocs hne, htarget,
      ValueKind.readWide, ValueKind.read_withFp]
    rfl
  refine ⟨fun hne => ⟨hlocs hne, hcaller hne⟩, ?_, fun hsame hinteger => ⟨?_, ?_⟩⟩
  · intro hne hsource hcarries unwinder world value hvalue
    have hnamed : source < space.arch.numRegs := lt_numRegs_of_readColumn hvalue
    rw [readColumn_answer, if_pos hnamed, if_neg fun h => hsource h.1] at hvalue
    rw [hcaller hne]
    exact @ValueKind.readWide_carried
      (space.target world walk.cursor.thread walk.cursor.validate) _ _ _ _ hcarries hvalue
  · intro unwinder world
    rw [readColumn_answer, if_pos hreg, if_pos ⟨hsame, hinteger⟩]
  · rintro rfl
    obtain ⟨stored, hstored, hcleared, -⟩ := callerIp_eq_some hip
    have hread : (locs.of script.returnAddress).read (between.target space)
        script.returnAddress = .ok stored := hstored
    have hbetween : after.target space = between.target space := by
      rw [hafter]
      rfl
    refine ⟨stored, ?_, ?_⟩
    · rw [hbetween, ← hread, hplaced]
      exact (ValueKind.read_withFp .integer loc _).symm
    · rw [hcursor]
      exact hcleared

/-- A function that keeps a general register and a vector register of its caller
in another vector register, and the return address on the stack. -/
def savingRegion : Region where
  name := none
  start := 0x1000
  stop := 0x1100
  returnAddress := 16
  ops := [⟨0, none, .defCfa 7 8⟩, ⟨0, none, .spill 16 (-8)⟩, ⟨0, none, .saveReg 3 17⟩,
    ⟨0, none, .saveReg 18 17⟩]

/-- That function is running.  The world is where the thread stands. -/
def savingSpace : AddressSpace UInt64 Unit where
  arch := .x86_64
  loadWord _ _ addr := if addr = 0x8000 then .ok 0x2000 else .error (.unreadable addr)
  storeWord _ addr _ := throw (.unreadable addr)
  loadReg ip _ reg := .ok (if reg = 16 then ip else if reg = 7 then 0x8000 else 0)
  storeReg _ reg _ := throw (.readOnlyRegister reg)
  loadFpReg _ _ reg := .ok (if reg = 17 then 0x1234 else 0)
  storeFpReg _ reg _ := throw (.readOnlyRegister reg)
  findProc world _ ip :=
    if savingRegion.contains ip then
      ⟨.ok (.ofRegion savingRegion), world, 0⟩
    else
      ⟨.error (.noInfo ip), world, 0⟩
  releaseProc world _ _ := world
  procName _ _ ip _ := .error (.noInfo ip)
  probe _ _ _ := .ok ()

def savingScript : Script where
  cfa := .registerOffset 7 8
  rules := [(3, .inRegister 17), (16, .cfaRelative (-8)), (18, .inRegister 17)]
  returnAddress := 16
  argsSize := 0
  signalFrame := false
  raSigned := false

/-- In the caller of that function. -/
def savingCaller : Walk UInt64 Unit :=
  ((step savingSpace).perform (freshWalk 0x1000)).2

theorem frameRules_saving :
    (frameRules savingSpace).answer (freshWalk 0x1000) =
      .ok (savingScript, .ofRegion savingRegion) := by
  decide +kernel

theorem step_saving : step savingSpace (freshWalk 0x1000) = .ok true savingCaller := by
  have hanswer : (step savingSpace).answer (freshWalk 0x1000) = .ok true := by
    decide +kernel
  obtain ⟨after, hrun⟩ := Action.answer_eq_ok_iff.mp hanswer
  unfold savingCaller Action.perform
  rw [hrun]

/-- The vector register has the frame's value in the caller. -/
theorem step_carries_saved_vector :
    (readColumn savingSpace 18).answer ⟨savingCaller.unwinder, 0x1000, savingCaller.cursor⟩ =
      .ok 0x1234 := by
  obtain ⟨between, hrules⟩ := Action.answer_eq_ok_iff.mp frameRules_saving
  have hgoverns : Governs savingScript.rules 18 (.inRegister 17) :=
    ⟨savingScript.rules.take 2, [], rfl, nofun⟩
  have hcarried := (step_carries_saved (by decide) hrules step_saving (by decide +kernel)
    (by decide) hgoverns (.inl rfl)).2.1 (by decide) (by decide) (.inl (by decide))
  exact hcarried savingCaller.unwinder 0x1000 0x1234 (by decide +kernel)

/-- The general register has what the integer register of that number holds, if it
has one, and not the value of the vector register that it is saved in. -/
theorem saved_read_from_other_file :
    Cursor.make savingSpace 0x1000 () = .ok (freshWalk 0x1000).cursor ∧
      (frameRules savingSpace).answer (freshWalk 0x1000) =
        .ok (savingScript, .ofRegion savingRegion) ∧
      Governs savingScript.rules 3 (.inRegister 17) ∧
      (step savingSpace).answer (freshWalk 0x1000) = .ok true ∧
      savingCaller.cursor.lastStep = some .dynamic ∧
      (readColumn savingSpace 17).answer (freshWalk 0x1000) = .ok 0x1234 ∧
      (readColumn savingSpace 17).answer savingCaller = .ok 0x1234 ∧
      (readColumn savingSpace 3).answer savingCaller = .ok 0 ∧
      ValueKind.integer.cut 0x1234 = 0x1234 := by
  refine ⟨rfl, frameRules_saving, ⟨[], _, rfl, by decide⟩, ?_, ?_, ?_, ?_, ?_, ?_⟩
  all_goals decide +kernel

end Walk
end StackWalk
