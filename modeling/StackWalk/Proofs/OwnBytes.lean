import Mathlib.Tactic
import StackWalk.Arch.Shipped
import StackWalk.Proofs.Cfi.Extents
import StackWalk.Proofs.Expression.Extents

/-!
# Programs and their own bytes

Call frame programs and expressions say how long they are.  What begins in
such a range belongs to it, and so do its bytes, up to the operands of the last
instruction, or of an operation: nothing makes sure that these end in the
range.
-/

namespace StackWalk

open Cfi Expression

/-- Instructions begin inside their program and all but the last end inside, as
expressions do, and operations begin inside their expression.  Memories that
agree on the range, and on what is looked up elsewhere, are read as the same
instructions but for the last, and an expression whose operations end inside
evaluates to the same. -/
theorem programs_read_own_bytes {first second : Target} (hkind : first.SameKind second) :
    (∀ (ctx : ProgramContext) (pos : UInt64),
      (extents first ctx pos).map Extent.item = listing first ctx pos ∧
      (∀ extent ∈ extents first ctx pos, pos ≤ extent.start ∧ extent.start < ctx.stop ∧
        ∀ instruction, extent.item = .ok instruction →
          decode first ctx extent.start = .ok instruction extent.stop ∧
          (instruction.hasBlock = true → extent.stop ≤ ctx.stop)) ∧
      (∀ extent ∈ (extents first ctx pos).dropLast,
        (∃ instruction, extent.item = .ok instruction) ∧ extent.stop < ctx.stop) ∧
      (first.AgreeOn second pos ctx.stop →
        (∀ extent ∈ extents first ctx pos, LocationAgrees first second ctx extent.start) →
        SameButLast ctx (extents first ctx pos) (extents second ctx pos))) ∧
    (∀ (locs : Column → Location) (addr length start stop : UInt64) (word : Option UInt64),
      first.readULeb128 addr = .ok length start → programEnd start length = .ok stop →
      (∀ machine ∈ operationsAt first locs start stop word,
        start ≤ machine.pos ∧ machine.pos < stop) ∧
      (first.AgreeOn second addr stop →
        (∀ machine ∈ operationsAt first locs start stop word,
          machine.Enclosed ⟨first, locs, start, stop⟩ second) →
        evaluate first locs addr word = evaluate second locs addr word)) := by
  refine ⟨fun ctx pos => ⟨map_item_extents first ctx pos, ?_, fun extent => ends_inside,
    extents_sameButLast hkind⟩, ?_⟩
  · intro extent hmem
    obtain ⟨hstart, hinside⟩ := begins_inside hmem
    refine ⟨hstart, hinside, fun instruction hitem => ?_⟩
    have hdecode := decode_of_mem hmem hitem
    exact ⟨hdecode, decode_blocksInside first ctx extent.start instruction extent.stop hdecode⟩
  · intro locs addr length start stop word hlength hend
    exact ⟨WordMachine.visited_inside hkind.size_le (UInt64.le_refl _),
      evaluate_congr hkind hlength hend⟩

/-- At `0x1000` an expression of three bytes, which looks up a word at `0x40`,
at `0x1004` a program of two, and at `0x1006` an expression of one.  Its
operation, and an instruction that is read there, has its operand in the
word behind. -/
def spillingTarget (behind : UInt64) : Target where
  arch := .x86_64
  loadWord addr :=
    .ok (if addr = 0x1000 then 0x0e01100e06400803 else if addr = 0x1008 then behind else 7)
  loadReg _ := .ok 0
  loadFpReg _ := .ok 0

theorem spillingTarget_agreeOn (behind other lo : UInt64) :
    (spillingTarget behind).AgreeOn (spillingTarget other) lo 0x1008 := by
  intro addr _ hhi
  have hbefore : alignDown addr 8 ≠ 0x1008 := by
    intro heq
    have haligned := congrArg UInt64.toNat heq
    rw [toNat_alignDown] at haligned
    have hlt := UInt64.lt_iff_toNat_lt.mp hhi
    have hbound : (0x1008 : UInt64).toNat = 0x1008 := rfl
    omega
  have hword : (spillingTarget behind).readWord (alignDown addr 8) =
      (spillingTarget other).readWord (alignDown addr 8) := by
    simp only [Target.readWord, spillingTarget, hbefore, if_false]
  exact congrArg (· >>= fun word : UInt64 =>
    .ok (word >>> Target.byteShift .little 8 (addr - alignDown addr 8)).toUInt8) hword

/-- The two bytes at `0x1004`. -/
def enclosedProgram : ProgramContext :=
  ⟨.absolute, {}, 0x1006⟩

theorem extents_enclosedProgram :
    extents (spillingTarget 0x10) enclosedProgram 0x1004 =
      [⟨0x1004, .ok (.defCfaOffset 0x10), 0x1006⟩] := by
  have hopcode : (spillingTarget 0x10).readU8 0x1004 = .ok 0x0e 0x1005 := rfl
  have hdecode : decode (spillingTarget 0x10) enclosedProgram 0x1004 =
      .ok (.defCfaOffset 0x10) 0x1006 := by
    rw [decode, Action.bind_eq_of_ok hopcode]
    cbv
  have hend : ¬(0x1006 : UInt64) < enclosedProgram.stop := by decide
  rw [extents_eq, if_pos (by decide), hdecode]
  simp only [extents_eq_nil_iff.mpr hend]

theorem operationsAt_enclosed :
    operationsAt (spillingTarget 0x10) (fun _ => .lost) 0x1001 0x1004 none =
      [⟨0x1001, []⟩, ⟨0x1003, [0x40]⟩] := by
  rfl

theorem programs_read_own_bytes_spilling :
    (spillingTarget 0x10).SameKind (spillingTarget 0x20) ∧
      listing (spillingTarget 0x10) enclosedProgram 0x1004 =
        listing (spillingTarget 0x20) enclosedProgram 0x1004 ∧
      evaluate (spillingTarget 0x10) (fun _ => .lost) 0x1000 none =
        evaluate (spillingTarget 0x20) (fun _ => .lost) 0x1000 none := by
  have hkind : (spillingTarget 0x10).SameKind (spillingTarget 0x20) := ⟨rfl, by decide⟩
  obtain ⟨hprograms, hexpressions⟩ := programs_read_own_bytes hkind
  have hagree (lo hi : UInt64) (hhi : hi ≤ 0x1008) :
      (spillingTarget 0x10).AgreeOn (spillingTarget 0x20) lo hi :=
    fun addr hlo hlt =>
      spillingTarget_agreeOn 0x10 0x20 lo addr hlo (UInt64.lt_of_lt_of_le hlt hhi)
  refine ⟨hkind, ?_, ?_⟩
  · obtain ⟨hitems, -, -, hsame⟩ := hprograms enclosedProgram 0x1004
    rw [extents_enclosedProgram] at hitems hsame
    have hopcode : (spillingTarget 0x10).readByte 0x1004 = .ok 0x0e := rfl
    obtain ⟨-, -, hequal⟩ := hsame (hagree _ _ (by decide)) fun extent hmem hlocation => by
      obtain rfl := List.mem_singleton.mp hmem
      rw [hopcode] at hlocation
      cases hlocation
    rw [← hitems, ← map_item_extents (spillingTarget 0x20), ← hequal]
    intro extent hmem
    obtain rfl := List.mem_singleton.mp hmem
    exact ⟨⟨_, rfl⟩, by decide⟩
  · have hlength : (spillingTarget 0x10).readULeb128 0x1000 = .ok 3 0x1001 := by cbv
    refine (hexpressions (fun _ => .lost) 0x1000 3 0x1001 0x1004 none hlength rfl).2
      (hagree _ _ (by decide)) fun machine hmem => ?_
    rw [operationsAt_enclosed] at hmem
    rcases List.mem_cons.mp hmem with rfl | hmem
    · exact ⟨.constant 0x40, 0x1003, rfl, by decide, rfl, rfl⟩
    · obtain rfl := List.mem_singleton.mp hmem
      exact ⟨.load, 0x1004, rfl, by decide, rfl, rfl⟩

/-- An instruction and an operation that begin with the last byte of their range
have their operands behind it. -/
theorem operands_behind_the_end :
    (spillingTarget 0x10).AgreeOn (spillingTarget 0x20) 0x1006 0x1008 ∧
      listing (spillingTarget 0x10) ⟨.absolute, {}, 0x1008⟩ 0x1007 =
        [.ok (.defCfaOffset 0x10)] ∧
      listing (spillingTarget 0x20) ⟨.absolute, {}, 0x1008⟩ 0x1007 =
        [.ok (.defCfaOffset 0x20)] ∧
      (spillingTarget 0x10).readULeb128 0x1006 = .ok 1 0x1007 ∧
      evaluate (spillingTarget 0x10) (fun _ => .lost) 0x1006 none = .ok (.address 0x10) ∧
      evaluate (spillingTarget 0x20) (fun _ => .lost) 0x1006 none = .ok (.address 0x20) := by
  have hend : ¬(0x1009 : UInt64) < 0x1008 := by decide
  have hlisting {behind value : UInt64}
      (hdecode : decode (spillingTarget behind) ⟨.absolute, {}, 0x1008⟩ 0x1007 =
        .ok (.defCfaOffset value) 0x1009) :
      listing (spillingTarget behind) ⟨.absolute, {}, 0x1008⟩ 0x1007 =
        [.ok (.defCfaOffset value)] := by
    rw [listing_eq, if_pos (by decide), hdecode]
    dsimp only
    rw [listing_eq, if_neg hend]
  have hfirst : (spillingTarget 0x10).readU8 0x1007 = .ok 0x0e 0x1008 := rfl
  have hsecond : (spillingTarget 0x20).readU8 0x1007 = .ok 0x0e 0x1008 := rfl
  have hlength : (spillingTarget 0x10).readULeb128 0x1006 = .ok 1 0x1007 := by cbv
  have hother : (spillingTarget 0x20).readULeb128 0x1006 = .ok 1 0x1007 := by cbv
  refine ⟨spillingTarget_agreeOn 0x10 0x20 0x1006, hlisting ?_, hlisting ?_, hlength, ?_, ?_⟩
  · rw [decode, Action.bind_eq_of_ok hfirst]
    cbv
  · rw [decode, Action.bind_eq_of_ok hsecond]
    cbv
  · rw [evaluate, hlength]
    rfl
  · rw [evaluate, hother]
    rfl

end StackWalk
