import StackWalk.Proofs.Session.Procedures

/-!
# The names that cursors tell

A frame behind a call is looked up one address before its own, for the call may
be the last instruction of its procedure.  The regions are asked for a name
there too, but the address space is asked at the frame's own address.  Where
this is the end of the procedure, the name told is another's; everywhere else
the name is that of the procedure told, and the offset goes with it.
-/

namespace StackWalk

variable {World Thread Epoch : Type}

/-! ## Procedures with names -/

/-- What an address space can tell of a procedure. -/
structure Procedure where
  info : ProcInfo
  name : Option String

/-- The name of the procedure cut to `room` bytes, and how far into it an address
is. -/
def Procedure.nameAt (procedure : Procedure) (ip : UInt64) (room : Nat) : Option ProcName :=
  procedure.name.map fun name => ⟨name.toUTF8.toList.take room, ip - procedure.info.start⟩

/-- Asked for a procedure or a name, the address space tells of the procedure
that holds the address.  An address is in one procedure at most. -/
structure AddressSpace.Tells (space : AddressSpace World Thread) (epoch : World → Epoch)
    (layout : Epoch → UInt64 → Option Procedure) : Prop where
  findProc : ∀ world thread ip,
    (space.findProc world thread ip).answer.toOption = (layout (epoch world) ip).map Procedure.info
  procName : ∀ world thread ip room,
    (space.procName world thread ip room).toOption =
      (layout (epoch world) ip).bind (·.nameAt ip room)
  contains : ∀ {now ip procedure}, layout now ip = some procedure →
    procedure.info.contains ip = true
  whole : ∀ {now ip other procedure}, layout now ip = some procedure →
    procedure.info.contains other = true → layout now other = some procedure

theorem toOption_eq_some_iff {α : Type} {answer : Except UnwindError α} {a : α} :
    answer.toOption = some a ↔ answer = .ok a := by
  cases answer <;> simp [Except.toOption]

theorem ProcInfo.contains_iff {info : ProcInfo} {ip : UInt64} :
    info.contains ip = true ↔ info.start ≤ ip ∧ ip < info.stop := by
  simp [contains]

/-- Behind a call a frame is looked up one address before its own.  Nothing wraps
around, for the end of a procedure is an address too. -/
theorem Cursor.toNat_ip_of_contains {info : ProcInfo} {cursor : Cursor Thread}
    (h : info.contains cursor.lookupIp = true) :
    cursor.ip.toNat = cursor.lookupIp.toNat + if cursor.usePrevious then 1 else 0 := by
  obtain ⟨-, hstop⟩ := ProcInfo.contains_iff.mp h
  rw [UInt64.lt_iff_toNat_lt] at hstop
  have hend := info.stop.toNat_lt
  unfold lookupIp at hstop ⊢
  cases hprevious : cursor.usePrevious with
  | false => rfl
  | true =>
      have hlt := cursor.ip.toNat_lt
      have hone : (1 : UInt64).toNat = 1 := rfl
      rw [hprevious] at hstop
      simp only [if_true, UInt64.toNat_sub, hone] at hstop ⊢
      omega

theorem Cursor.lookupIp_le {info : ProcInfo} {cursor : Cursor Thread}
    (h : info.contains cursor.lookupIp = true) : cursor.lookupIp ≤ cursor.ip := by
  rw [UInt64.le_iff_toNat_le, toNat_ip_of_contains h]
  exact Nat.le_add_right _ _

/-- The frame is behind a call that ends the procedure, so that its own address
is past the end. -/
def Cursor.ReturnsPast (cursor : Cursor Thread) (info : ProcInfo) : Prop :=
  cursor.usePrevious = true ∧ cursor.ip = info.stop

/-- A frame lies in the procedure it is looked up in, unless a call ends the
procedure. -/
theorem Cursor.contains_ip_iff {info : ProcInfo} {cursor : Cursor Thread}
    (h : info.contains cursor.lookupIp = true) :
    info.contains cursor.ip = true ↔ ¬cursor.ReturnsPast info := by
  have hip := toNat_ip_of_contains h
  obtain ⟨hstart, hstop⟩ := ProcInfo.contains_iff.mp h
  rw [UInt64.le_iff_toNat_le] at hstart
  rw [UInt64.lt_iff_toNat_lt] at hstop
  rw [ReturnsPast, ProcInfo.contains_iff, UInt64.le_iff_toNat_le, UInt64.lt_iff_toNat_lt,
    ← UInt64.toNat_inj]
  cases hprevious : cursor.usePrevious with
  | false =>
      rw [hprevious, if_neg (by decide)] at hip
      simp only [Bool.false_eq_true, false_and, not_false_eq_true, iff_true]
      omega
  | true =>
      rw [hprevious, if_pos rfl] at hip
      simp only [true_and]
      omega

/-- The address space tells the name of the procedure that a frame is looked up
in, unless a call ends the procedure. -/
theorem AddressSpace.Tells.procName_eq_iff {space : AddressSpace World Thread}
    {epoch : World → Epoch} {layout : Epoch → UInt64 → Option Procedure}
    (h : space.Tells epoch layout) {world : World} {cursor : Cursor Thread}
    {procedure : Procedure} {name : String}
    (hlayout : layout (epoch world) cursor.lookupIp = some procedure)
    (hname : procedure.name = some name) (thread : Thread) (room : Nat) :
    space.procName world thread cursor.ip room =
        .ok ⟨name.toUTF8.toList.take room, cursor.ip - procedure.info.start⟩ ↔
      ¬cursor.ReturnsPast procedure.info := by
  have hcontains := h.contains hlayout
  rw [← Cursor.contains_ip_iff hcontains, ← toOption_eq_some_iff, h.procName]
  constructor
  · intro htold
    by_contra houtside
    -- What is told is of a procedure that begins where this one ends.
    obtain ⟨other, hother, hat⟩ := Option.bind_eq_some_iff.mp htold
    obtain ⟨title, -, htitle⟩ := Option.map_eq_some_iff.mp hat
    have hoffset : cursor.ip - other.info.start = cursor.ip - procedure.info.start :=
      congrArg ProcName.offset htitle
    have hstart : other.info.start = procedure.info.start := (UInt64.sub_right_inj _).mp hoffset
    have hback : other.info.contains cursor.lookupIp = true := by
      rw [ProcInfo.contains_iff, hstart]
      refine ⟨(ProcInfo.contains_iff.mp hcontains).1, ?_⟩
      exact UInt64.lt_of_le_of_lt (Cursor.lookupIp_le hcontains)
        (ProcInfo.contains_iff.mp (h.contains hother)).2
    have hsame := h.whole hother hback
    rw [hlayout] at hsame
    obtain rfl := Option.some.inj hsame
    exact houtside (h.contains hother)
  · intro hinside
    rw [h.whole hlayout hinside, Option.bind_some, Procedure.nameAt, hname, Option.map_some]

namespace Session

/-- What the cursor answers now when it is asked for the name of its
procedure. -/
def nameTold (space : AddressSpace World Thread) (session : Session World Thread)
    (cursor : Cursor Thread) (room : Nat) : Except UnwindError ProcName :=
  ((Walk.procName space room).perform ⟨session.unwinder, session.world, cursor⟩).1

/-- The name of the procedure that a lookup for the cursor's frame finds. -/
def nameOf (session : Session World Thread) (epoch : World → Epoch)
    (layout : Epoch → UInt64 → Option Procedure) (cursor : Cursor Thread) : Option String :=
  match session.unwinder.registry.find? cursor.lookupIp with
  | some region => region.name
  | none => (layout (epoch session.world) cursor.lookupIp).bind (·.name)

variable {space : AddressSpace World Thread} {epoch : World → Epoch}
  {layout : Epoch → UInt64 → Option Procedure} {session : Session World Thread}
  {cursor : Cursor Thread}

theorem nameTold_of_region {region : Region} {name : String}
    (hregion : session.unwinder.registry.find? cursor.lookupIp = some region)
    (hname : region.name = some name) (room : Nat) :
    session.nameTold space cursor room =
      .ok ⟨name.toUTF8.toList.take room, cursor.ip - region.start⟩ := by
  unfold nameTold Walk.procName Action.perform
  simp only [Action.get_bind_apply, hregion, Option.bind_some, hname, Option.map_some,
    Action.pure_apply]

theorem nameTold_of_no_region
    (hregion : session.unwinder.registry.find? cursor.lookupIp = none) (room : Nat) :
    session.nameTold space cursor room =
      space.procName session.world cursor.thread cursor.ip room := by
  unfold nameTold Walk.procName Action.perform
  simp only [Action.get_bind_apply, hregion, Option.bind_none]
  cases space.procName session.world cursor.thread cursor.ip room <;> rfl

theorem procOf_of_region {region : Region}
    (hregion : session.unwinder.registry.find? cursor.lookupIp = some region) :
    session.procOf space cursor = .ok (.ofRegion region) := by
  rw [procOf_eq_procFor, Walk.procFor, hregion]
  rfl

theorem procOf_of_no_region (h : space.Tells epoch layout) {info : ProcInfo}
    (hregion : session.unwinder.registry.find? cursor.lookupIp = none)
    (hinfo : session.procOf space cursor = .ok info) :
    ∃ procedure, layout (epoch session.world) cursor.lookupIp = some procedure ∧
      procedure.info = info := by
  rw [procOf_eq_procFor, Walk.procFor, hregion] at hinfo
  obtain ⟨found, hfound, hcheck⟩ := bind_eq_ok_iff.mp hinfo
  have hsame : found = info := by
    split at hcheck
    · exact Except.ok.inj hcheck
    · cases hcheck
  rw [← toOption_eq_some_iff, h.findProc, hsame] at hfound
  exact Option.map_eq_some_iff.mp hfound

/-- The name that a cursor tells is that of the procedure a lookup finds, unless
no region holds the frame and a call ends the procedure. -/
theorem nameTold_iff_of_procOf (h : space.Tells epoch layout) {info : ProcInfo} {name : String}
    (hinfo : session.procOf space cursor = .ok info)
    (hname : session.nameOf epoch layout cursor = some name) (room : Nat) :
    session.nameTold space cursor room =
        .ok ⟨name.toUTF8.toList.take room, cursor.ip - info.start⟩ ↔
      (session.unwinder.registry.find? cursor.lookupIp ≠ none ∨ ¬cursor.ReturnsPast info) := by
  unfold nameOf at hname
  cases hregion : session.unwinder.registry.find? cursor.lookupIp with
  | some region =>
      rw [hregion] at hname
      rw [procOf_of_region hregion] at hinfo
      obtain rfl := Except.ok.inj hinfo
      rw [nameTold_of_region hregion hname]
      simp [ProcInfo.ofRegion]
  | none =>
      obtain ⟨procedure, hlayout, rfl⟩ := procOf_of_no_region h hregion hinfo
      rw [hregion] at hname
      simp only [hlayout, Option.bind_some] at hname
      rw [nameTold_of_no_region hregion, h.procName_eq_iff hlayout hname]
      simp

/-- In any run, a cursor tells the name of the procedure that it tells, and how
far into it the frame is, unless no region holds the frame and a call ends the
procedure.  The cursor has not been asked before, or no change of the unwind
information concerns a frame that was asked about. -/
theorem nameTold_eq_iff (hfinds : space.FindsBy epoch) (h : space.Tells epoch layout)
    (config : CacheConfig) (world : World) (events : List (Event World Thread)) :
    let start : Session World Thread := make config world
    let now := events.foldl (Session.after space) start
    ∀ cursor ∈ now.cursors, cursor.procInfo = none ∨ start.Spares space events →
      ∀ info name room, now.procTold space cursor = .ok info →
        now.nameOf epoch layout cursor = some name →
        (now.nameTold space cursor room =
            .ok ⟨name.toUTF8.toList.take room, cursor.ip - info.start⟩ ↔
          (now.unwinder.registry.find? cursor.lookupIp ≠ none ∨ ¬cursor.ReturnsPast info)) := by
  intro start now cursor hcursor hcurrent info name room htold hname
  have hfound : now.procTold space cursor = now.procOf space cursor := by
    rcases hcurrent with hnone | hspares
    · rw [procTold_eq, hnone]
    · have hstart : start.UpToDate space := by simp [start, UpToDate, make]
      have hall := (upToDate_iff_spares hfinds hstart).mpr hspares
      exact upToDate_iff.mp (hall now (foldl_mem_scanl start events)) cursor hcursor
  exact nameTold_iff_of_procOf h (hfound.symm.trans htold) hname room

def namedProc (name : String) (start stop : UInt64) : Procedure where
  info := { start := start, stop := stop }
  name := some name

/-- Two procedures side by side. -/
def neighbours (ip : UInt64) : Option Procedure :=
  if (namedProc "caller" 0x1000 0x1010).info.contains ip then
    some (namedProc "caller" 0x1000 0x1010)
  else if (namedProc "next" 0x1010 0x1020).info.contains ip then
    some (namedProc "next" 0x1010 0x1020)
  else
    none

/-- An address space with the two procedures.  The world is what all words of
memory are. -/
def neighbourSpace : AddressSpace UInt64 Unit where
  arch := .x86_64
  loadWord word _ _ := .ok word
  storeWord _ addr _ := throw (.unreadable addr)
  loadReg _ _ reg := .ok (if reg = 16 then 0x3000 else 0x8000)
  storeReg _ reg _ := throw (.readOnlyRegister reg)
  loadFpReg _ _ reg := .error (.badRegister (UInt64.ofNat reg))
  storeFpReg _ reg _ := throw (.readOnlyRegister reg)
  findProc word _ ip :=
    let answer := (neighbours ip).map Procedure.info
    ⟨answer.elim (.error (.noInfo ip)) .ok, word, 0⟩
  releaseProc word _ _ := word
  procName _ _ ip room :=
    let answer := (neighbours ip).bind (·.nameAt ip room)
    answer.elim (.error (.noInfo ip)) .ok
  probe _ _ _ := .ok ()

theorem neighbourSpace_findsBy : neighbourSpace.FindsBy fun _ => () where
  procedure _ _ _ _ := rfl
  findProc _ _ _ := rfl
  releaseProc _ _ _ := rfl
  storeWord _ _ _ _ := rfl
  storeReg _ _ _ _ := rfl

theorem toOption_elim {α : Type} (answer : Option α) (e : UnwindError) :
    (answer.elim (.error e) .ok : Except UnwindError α).toOption = answer := by
  cases answer <;> rfl

theorem neighbours_eq_some_iff {ip : UInt64} {procedure : Procedure} :
    neighbours ip = some procedure ↔
      procedure.info.contains ip = true ∧
        (procedure = namedProc "caller" 0x1000 0x1010 ∨
          procedure = namedProc "next" 0x1010 0x1020) := by
  unfold neighbours
  constructor
  · intro h
    split at h
    · obtain rfl := Option.some.inj h
      exact ⟨‹_›, Or.inl rfl⟩
    · split at h
      · obtain rfl := Option.some.inj h
        exact ⟨‹_›, Or.inr rfl⟩
      · cases h
  · rintro ⟨hcontains, rfl | rfl⟩
    · rw [if_pos hcontains]
    · have hnot : ¬(namedProc "caller" 0x1000 0x1010).info.contains ip = true := by
        rw [ProcInfo.contains_iff] at hcontains ⊢
        exact fun hcaller => UInt64.not_le.mpr hcaller.2 hcontains.1
      rw [if_neg hnot, if_pos hcontains]

theorem neighbourSpace_tells : neighbourSpace.Tells (fun _ => ()) fun _ => neighbours where
  findProc _ _ _ := toOption_elim _ _
  procName _ _ _ _ := toOption_elim _ _
  contains h := (neighbours_eq_some_iff.mp h).1
  whole h hcontains := neighbours_eq_some_iff.mpr ⟨hcontains, (neighbours_eq_some_iff.mp h).2⟩

/-- Code made at run time that was called from where the world says. -/
def calledRegion : Region where
  name := some "called"
  start := 0x3000
  stop := 0x3100
  returnAddress := 16
  ops := [⟨0, none, .defCfa 7 8⟩, ⟨0, none, .spill 16 (-8)⟩]

/-- The cursor goes to the caller and is asked for its procedure. -/
def returning : List (Event UInt64 Unit) :=
  [.request (.registerRegion calledRegion), .request (.openCursor ()), .request (.step 0),
    .procInfo 0]

def returnedTo (word : UInt64) : Session UInt64 Unit :=
  returning.foldl (Session.after neighbourSpace) (make {} word)

theorem spares_returning (word : UInt64) : (make {} word).Spares neighbourSpace returning := by
  refine ⟨fun _ cursor hcursor => ?_, False.elim, False.elim, False.elim, trivial⟩
  simp [make] at hcursor

theorem nameTold_eq_iff_inside :
    neighbourSpace.FindsBy (fun _ => ()) ∧
      neighbourSpace.Tells (fun _ => ()) (fun _ => neighbours) ∧
      (make {} 0x1008).Spares neighbourSpace returning ∧
      ∃ cursor ∈ (returnedTo 0x1008).cursors,
        (returnedTo 0x1008).procTold neighbourSpace cursor =
            .ok (namedProc "caller" 0x1000 0x1010).info ∧
          (returnedTo 0x1008).nameOf (fun _ => ()) (fun _ => neighbours) cursor = some "caller" ∧
          (returnedTo 0x1008).nameTold neighbourSpace cursor 4 =
            .ok ⟨"call".toUTF8.toList, 8⟩ := by
  have hspares := spares_returning 0x1008
  refine ⟨neighbourSpace_findsBy, neighbourSpace_tells, hspares, ?_⟩
  have hseen : (returnedTo 0x1008).cursors[0]?.map (fun cursor =>
      ((returnedTo 0x1008).procTold neighbourSpace cursor,
        (returnedTo 0x1008).nameOf (fun _ => ()) (fun _ => neighbours) cursor, cursor.ip)) =
      some (.ok (namedProc "caller" 0x1000 0x1010).info, some "caller", 0x1008) := by
    decide +kernel
  obtain ⟨cursor, hcursor, hsame⟩ := Option.map_eq_some_iff.mp hseen
  simp only [Prod.mk.injEq] at hsame
  obtain ⟨htold, hname, hip⟩ := hsame
  have hmem := Array.mem_of_getElem? hcursor
  have hiff := nameTold_eq_iff neighbourSpace_findsBy neighbourSpace_tells {} 0x1008 returning
    cursor hmem (Or.inr hspares) _ _ 4 htold hname
  have hinside : ¬cursor.ReturnsPast (namedProc "caller" 0x1000 0x1010).info := by
    rintro ⟨-, hend⟩
    rw [hip] at hend
    exact absurd hend (by decide)
  refine ⟨cursor, hmem, htold, hname, (hiff.mpr (Or.inr hinside)).trans ?_⟩
  rw [hip]
  decide +kernel

/-- The call is the last instruction of the caller, and the name told is that of
the procedure behind it. -/
theorem nameTold_past_end :
    neighbourSpace.FindsBy (fun _ => ()) ∧
      neighbourSpace.Tells (fun _ => ()) (fun _ => neighbours) ∧
      (make {} 0x1010).Spares neighbourSpace returning ∧
      ∃ cursor ∈ (returnedTo 0x1010).cursors,
        cursor.ip = 0x1010 ∧
          (returnedTo 0x1010).procTold neighbourSpace cursor =
            .ok (namedProc "caller" 0x1000 0x1010).info ∧
          (returnedTo 0x1010).nameOf (fun _ => ()) (fun _ => neighbours) cursor = some "caller" ∧
          (returnedTo 0x1010).nameTold neighbourSpace cursor 16 = .ok ⟨"next".toUTF8.toList, 0⟩ ∧
          (returnedTo 0x1010).nameTold neighbourSpace cursor 16 ≠
            .ok ⟨"caller".toUTF8.toList, 0x10⟩ := by
  refine ⟨neighbourSpace_findsBy, neighbourSpace_tells, spares_returning 0x1010, ?_⟩
  have hseen : (returnedTo 0x1010).cursors[0]?.map (fun cursor =>
      (cursor.ip, (returnedTo 0x1010).procTold neighbourSpace cursor,
        (returnedTo 0x1010).nameOf (fun _ => ()) (fun _ => neighbours) cursor,
        (returnedTo 0x1010).nameTold neighbourSpace cursor 16)) =
      some (0x1010, .ok (namedProc "caller" 0x1000 0x1010).info, some "caller",
        .ok ⟨"next".toUTF8.toList, 0⟩) := by
    decide +kernel
  obtain ⟨cursor, hcursor, hsame⟩ := Option.map_eq_some_iff.mp hseen
  simp only [Prod.mk.injEq] at hsame
  obtain ⟨hip, htold, hname, hnamed⟩ := hsame
  refine ⟨cursor, Array.mem_of_getElem? hcursor, hip, htold, hname, hnamed, ?_⟩
  rw [hnamed]
  decide +kernel

end Session
end StackWalk
