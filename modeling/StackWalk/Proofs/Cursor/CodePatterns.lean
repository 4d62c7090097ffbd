import StackWalk.Arch.Shipped
import StackWalk.Proofs.Cursor.Finding
import StackWalk.Proofs.Scan

/-!
# Comparing code with a pattern

Code is compared with the pattern of a trampoline or a stub byte by byte.  A
pattern stands where each byte it asks for is found and all of its addresses
exist.  A comparison that gets as far as the last address counts past it; every
other one says whether the pattern stands.
-/

namespace StackWalk

namespace Target

variable {target : Target} {ip : UInt64} {expected : Option UInt8}
  {pattern : List (Option UInt8)} {count : Nat}

/-- The bytes that a pattern asks for at its first `count` places are found from
`ip` on.  Behind the last address comes the first one again. -/
def HasBytes (target : Target) (ip : UInt64) (pattern : List (Option UInt8)) (count : Nat) :
    Prop :=
  ∀ i < count, ∀ byte, pattern[i]? = some (some byte) →
    target.readByte (ip + UInt64.ofNat i) = .ok byte

/-- The pattern is found at `ip`, and all of its addresses exist. -/
def Stands (target : Target) (ip : UInt64) (pattern : List (Option UInt8)) : Prop :=
  ip.toNat + pattern.length ≤ 2 ^ 64 ∧ target.HasBytes ip pattern pattern.length

/-- The pattern at `ip` goes up to the last address or past it, and is found
everywhere before that one. -/
def ReachesTop (target : Target) (ip : UInt64) (pattern : List (Option UInt8)) : Prop :=
  2 ^ 64 ≤ ip.toNat + pattern.length ∧ target.HasBytes ip pattern (2 ^ 64 - 1 - ip.toNat)

theorem byteMatches_iff :
    target.byteMatches ip expected = true ↔
      ∀ byte, expected = some byte → target.readByte ip = .ok byte := by
  cases expected with
  | none => simp [byteMatches]
  | some expected =>
      unfold byteMatches
      cases target.readByte ip <;> simp

theorem hasBytes_succ :
    target.HasBytes ip (expected :: pattern) (count + 1) ↔
      target.byteMatches ip expected = true ∧ target.HasBytes (ip + 1) pattern count := by
  rw [byteMatches_iff]
  constructor
  · intro h
    refine ⟨fun byte hbyte => ?_, fun i hi byte hbyte => ?_⟩
    · simpa using h 0 (by omega) byte (by simpa using hbyte)
    · rw [add_one_add_ofNat]
      exact h (i + 1) (by omega) byte (by simpa using hbyte)
  · rintro ⟨hfirst, hrest⟩ i hi byte hbyte
    cases i with
    | zero => simpa using hfirst byte (by simpa using hbyte)
    | succ i =>
        rw [← add_one_add_ofNat]
        exact hrest i (by omega) byte (by simpa using hbyte)

theorem codeMatches_iff :
    target.codeMatches ip pattern = true ↔ target.HasBytes ip pattern pattern.length := by
  induction pattern generalizing ip with
  | nil => simp [codeMatches, HasBytes]
  | cons expected rest ih =>
      rw [codeMatches, Bool.and_eq_true, ih, List.length_cons, hasBytes_succ]

theorem matchOverflows_iff :
    target.matchOverflows ip pattern = true ↔ target.ReachesTop ip pattern := by
  unfold ReachesTop
  induction pattern generalizing ip with
  | nil =>
      have hip := ip.toNat_lt
      have hbelow : ¬2 ^ 64 ≤ ip.toNat + 0 := by omega
      simp only [matchOverflows, List.length_nil, Bool.false_eq_true, hbelow, false_and]
  | cons expected rest ih =>
      by_cases hlast : ip = maxWord
      · -- Nothing of the pattern comes before the last address.
        subst hlast
        have hmax : maxWord.toNat = 2 ^ 64 - 1 := rfl
        rw [matchOverflows, beq_self_eq_true, Bool.true_or, hmax, List.length_cons]
        exact iff_of_true rfl ⟨by omega, fun i hi => absurd hi (by omega)⟩
      · have hlt : ip.toNat < 2 ^ 64 - 1 := by
          have hne : ip.toNat ≠ maxWord.toNat := fun h => hlast (UInt64.toNat_inj.mp h)
          have hmax : maxWord.toNat = 2 ^ 64 - 1 := rfl
          have := ip.toNat_lt
          omega
        have hnext : (ip + 1).toNat = ip.toNat + 1 := @toNat_add_ofNat ip 1 (by omega)
        have hcount : 2 ^ 64 - 1 - ip.toNat = 2 ^ 64 - 1 - (ip.toNat + 1) + 1 := by omega
        rw [matchOverflows, beq_false_of_ne hlast, Bool.false_or, Bool.and_eq_true, ih, hnext,
          hcount, hasBytes_succ, List.length_cons]
        constructor
        · rintro ⟨hfirst, hreach, hrest⟩
          exact ⟨by omega, hfirst, hrest⟩
        · rintro ⟨hreach, hfirst, hrest⟩
          exact ⟨hfirst, by omega, hrest⟩

/-- Short of the last address, what is found there stands there. -/
theorem stands_iff (h : ¬target.ReachesTop ip pattern) :
    target.Stands ip pattern ↔ target.HasBytes ip pattern pattern.length := by
  refine ⟨And.right, fun hbytes => ⟨?_, hbytes⟩⟩
  by_contra hover
  have hip := ip.toNat_lt
  exact h ⟨by omega, fun i hi => hbytes i (by omega)⟩

/-- What comparing the code at `ip` with a pattern, if there is one, comes to:
whether it `overflows`, and whether the pattern is `found`. -/
structure Compares (target : Target) (ip : UInt64) (pattern? : Option (List (Option UInt8)))
    (overflows found : Prop) : Prop where
  overflows_iff : overflows ↔ ∃ pattern ∈ pattern?, target.ReachesTop ip pattern
  found_iff : found ↔ ∃ pattern ∈ pattern?, target.HasBytes ip pattern pattern.length
  found_iff_stands : ¬overflows → (found ↔ ∃ pattern ∈ pattern?, target.Stands ip pattern)

theorem compares_any (target : Target) (ip : UInt64)
    (pattern? : Option (List (Option UInt8))) :
    target.Compares ip pattern? (pattern?.any (target.matchOverflows ip) = true)
      (pattern?.any (target.codeMatches ip) = true) := by
  cases pattern? with
  | none => constructor <;> simp
  | some pattern =>
      constructor
      case overflows_iff => simp [matchOverflows_iff]
      case found_iff => simp [codeMatches_iff]
      case found_iff_stands =>
        intro h
        rw [Option.any_some, matchOverflows_iff] at h
        simp [codeMatches_iff, stands_iff h]

end Target

/-- The code that a signal handler returns to. -/
def Arch.trampoline? (arch : Arch) : Option (List (Option UInt8)) :=
  arch.signalFrame.map fun layout => layout.trampoline.map some

namespace Heuristic

variable {target : Target}

theorem SignalFrame.overflows_eq (target : Target) (ip : UInt64) :
    SignalFrame.overflows target ip =
      target.arch.trampoline?.any (target.matchOverflows ip) := by
  rw [Arch.trampoline?, Option.any_map]
  rfl

theorem SignalFrame.isTrampoline_eq (target : Target) (ip : UInt64) :
    SignalFrame.isTrampoline target ip = target.arch.trampoline?.any (target.codeMatches ip) := by
  rw [Arch.trampoline?, Option.any_map]
  exact Option.isSome_filter

theorem SignalFrame.step_declines_iff (frame : Frame) :
    SignalFrame.step target frame = .ok none ↔
      SignalFrame.isTrampoline target frame.ip = false := by
  unfold SignalFrame.step SignalFrame.isTrampoline
  cases SignalFrame.layoutAt target frame.ip with
  | none => simp [pure_eq_ok]
  | some layout =>
      simp only [Option.isSome_some, Bool.true_eq_false, iff_false]
      intro h
      obtain ⟨sp, -, h⟩ := bind_eq_ok_iff.mp h
      obtain ⟨cfa, -, h⟩ := bind_eq_ok_iff.mp h
      cases h

/-- The code at an address is a linkage stub. -/
def PltStub.isAt (target : Target) (ip : UInt64) : Bool :=
  target.arch.pltEntry.any (target.codeMatches ip)

theorem PltStub.step_declines_iff (frame : Frame) :
    PltStub.step target frame = .ok none ↔ PltStub.isAt target frame.ip = false := by
  have hany : PltStub.isAt target frame.ip =
      (target.arch.pltEntry.filter fun pattern => target.codeMatches frame.ip pattern).isSome :=
    Option.isSome_filter.symm
  rw [hany]
  unfold PltStub.step
  dsimp only
  cases target.arch.pltEntry.filter fun pattern => target.codeMatches frame.ip pattern with
  | none => simp [pure_eq_ok]
  | some pattern =>
      simp only [Option.isSome_some, Bool.true_eq_false, iff_false]
      intro h
      obtain ⟨sp, -, h⟩ := bind_eq_ok_iff.mp h
      cases h

end Heuristic

namespace Walk

open Heuristic

variable {World Thread : Type}

theorem stepOverflows_iff {space : AddressSpace World Thread} {walk : Walk World Thread} :
    stepOverflows space walk = true ↔
      SignalFrame.overflows (walk.target space) walk.cursor.ip = true ∨
        SignalFrame.isTrampoline (walk.target space) walk.cursor.ip = false ∧
          ∃ e after, unwindByRules space walk = .error e after ∧ e.allowsFallback = true ∧
            PltStub.overflows (after.target space) walk.cursor.ip = true := by
  unfold stepOverflows Action.perform
  rw [Bool.or_eq_true, Bool.and_eq_true, Bool.not_eq_true']
  refine or_congr_right (and_congr_right fun _ => ?_)
  cases hrules : unwindByRules space walk with
  | ok unwound after => simp
  | error e after =>
      have hip : after.cursor.ip = walk.cursor.ip :=
        congrArg Frame.ip (frame_of_unwindByRules_error hrules)
      simp [hip]

/-- Code is compared with a pattern at any address, and so at the start of a
step, in the question for a signal frame, and for a stub where the rules of the
frame are of no use.  Where the comparison does not count past the last address,
it finds the pattern just where the pattern stands; it does count past it where
the pattern goes up to that address and is found everywhere before. -/
theorem compares_code (space : AddressSpace World Thread) (walk : Walk World Thread) :
    (∀ (target : Target) (ip : UInt64) (pattern : List (Option UInt8)),
      target.Compares ip (some pattern) (target.matchOverflows ip pattern = true)
        (target.codeMatches ip pattern = true)) ∧
    (walk.target space).Compares walk.cursor.ip space.arch.trampoline?
      (SignalFrame.overflows (walk.target space) walk.cursor.ip = true)
      (SignalFrame.isTrampoline (walk.target space) walk.cursor.ip = true) ∧
    (SignalFrame.step (walk.target space) walk.cursor.frame ≠ .ok none ↔
      SignalFrame.isTrampoline (walk.target space) walk.cursor.ip = true) ∧
    (∀ e after, unwindByRules space walk = .error e after →
      (after.target space).Compares walk.cursor.ip space.arch.pltEntry
        (PltStub.overflows (after.target space) walk.cursor.ip = true)
        (PltStub.step (after.target space) after.cursor.frame ≠ .ok none)) ∧
    (stepOverflows space walk = true ↔
      (∃ pattern ∈ space.arch.trampoline?,
        (walk.target space).ReachesTop walk.cursor.ip pattern) ∨
      (¬∃ pattern ∈ space.arch.trampoline?,
        (walk.target space).HasBytes walk.cursor.ip pattern pattern.length) ∧
      ∃ e after, unwindByRules space walk = .error e after ∧ e.allowsFallback = true ∧
        ∃ pattern ∈ space.arch.pltEntry,
          (after.target space).ReachesTop walk.cursor.ip pattern) := by
  have htrampoline : (walk.target space).Compares walk.cursor.ip space.arch.trampoline?
      (SignalFrame.overflows (walk.target space) walk.cursor.ip = true)
      (SignalFrame.isTrampoline (walk.target space) walk.cursor.ip = true) := by
    rw [SignalFrame.overflows_eq, SignalFrame.isTrampoline_eq]
    exact Target.compares_any _ _ _
  have hstub (after : Walk World Thread) :
      (after.target space).Compares walk.cursor.ip space.arch.pltEntry
        (PltStub.overflows (after.target space) walk.cursor.ip = true)
        (PltStub.isAt (after.target space) walk.cursor.ip = true) :=
    Target.compares_any _ _ _
  refine ⟨fun target ip pattern => target.compares_any ip (some pattern), htrampoline, ?_,
    fun e after hrules => ?_, ?_⟩
  · rw [ne_eq, SignalFrame.step_declines_iff, Bool.not_eq_false]
    rfl
  · rw [ne_eq, PltStub.step_declines_iff, Bool.not_eq_false, frame_of_unwindByRules_error hrules]
    exact hstub after
  · rw [stepOverflows_iff, htrampoline.overflows_iff, ← Bool.not_eq_true, htrampoline.found_iff]
    simp only [(hstub _).overflows_iff]

/-- The code of a trampoline at `0x1000`, and once more so near the top that its
last byte would come behind the last address.  The world is where the thread
stands. -/
def trampolineSpace : AddressSpace UInt64 Unit where
  arch := .x86_64
  loadWord _ _ addr :=
    if addr = 0x1000 ∨ addr = 0xfffffffffffffff8 then
      .ok 0x0f0000000fc0c748
    else if addr = 0x1008 ∨ addr = 0 then
      .ok 0x05
    else
      .error (.unreadable addr)
  storeWord _ addr _ := throw (.unreadable addr)
  loadReg ip _ reg := .ok (if reg = 16 then ip else 0x8000)
  storeReg _ reg _ := throw (.readOnlyRegister reg)
  loadFpReg _ _ reg := .error (.badRegister (UInt64.ofNat reg))
  storeFpReg _ reg _ := throw (.readOnlyRegister reg)
  findProc ip _ _ := ⟨.error (.noInfo ip), ip, 0⟩
  releaseProc ip _ _ := ip
  procName _ _ ip _ := .error (.noInfo ip)
  probe _ _ _ := .ok ()

/-- A walk that has just begun, in a world that is where the thread stands. -/
def freshWalk (ip : UInt64) : Walk UInt64 Unit where
  unwinder := .make {}
  world := ip
  cursor := {
    thread := ()
    ip := ip
    cfa := 0x8000
    locs := .live .x86_64
    procInfo := none
    usePrevious := false
    lastStep := none
    validate := false
    predicates := {}
    hint := none
    workspace := .empty }

theorem compares_code_trampoline :
    SignalFrame.overflows ((freshWalk 0x1000).target trampolineSpace) 0x1000 = false ∧
      ∃ pattern ∈ Arch.x86_64.trampoline?,
        ((freshWalk 0x1000).target trampolineSpace).Stands 0x1000 pattern := by
  have hshort : SignalFrame.overflows ((freshWalk 0x1000).target trampolineSpace) 0x1000 =
      false := by
    decide +kernel
  have hfound : SignalFrame.isTrampoline ((freshWalk 0x1000).target trampolineSpace)
      0x1000 = true := by
    decide +kernel
  obtain ⟨-, htrampoline, -⟩ := compares_code trampolineSpace (freshWalk 0x1000)
  exact ⟨hshort, (htrampoline.found_iff_stands (Bool.eq_false_iff.mp hshort)).mp hfound⟩

/-- Eight bytes below the top the code is taken for a trampoline of nine bytes,
and checked arithmetic does not get that far. -/
theorem trampoline_past_the_top :
    Cursor.make trampolineSpace 0xfffffffffffffff8 () =
        .ok (freshWalk 0xfffffffffffffff8).cursor ∧
      stepOverflows trampolineSpace (freshWalk 0xfffffffffffffff8) = true ∧
      (isSignalFrame trampolineSpace).answer (freshWalk 0xfffffffffffffff8) = .ok true ∧
      ¬∃ pattern ∈ Arch.x86_64.trampoline?,
        ((freshWalk 0xfffffffffffffff8).target trampolineSpace).Stands 0xfffffffffffffff8
          pattern := by
  refine ⟨rfl, by decide +kernel, by decide +kernel, ?_⟩
  rintro ⟨pattern, hpattern, hfits, -⟩
  obtain rfl := Option.some.inj hpattern
  exact absurd hfits (by decide)

end Walk
end StackWalk
