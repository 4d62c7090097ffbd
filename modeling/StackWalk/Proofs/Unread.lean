import Mathlib.Tactic
import StackWalk.Pointer
import StackWalk.Proofs.Action
import StackWalk.Proofs.Leb128

/-!
# Bytes that are not read

Some words of a memory may be made unreadable.  What is read of such a part is
what the whole gives, unless the answer is that some memory cannot be read.  So
a reading that the part is enough for does not depend on what the missing words
hold.  This is shown for each way to read, and holds of what is put together
from them.
-/

namespace StackWalk

variable {α β : Type}

/-! ## Answers of a part and of the whole -/

/-- The answer of the part is that of the whole, or that some memory cannot be
read. -/
def SameOrUnreadable (part whole : Except UnwindError α) : Prop :=
  part = whole ∨ ∃ addr, part = .error (.unreadable addr)

namespace SameOrUnreadable

variable {part whole : Except UnwindError α}

theorem refl (answer : Except UnwindError α) : SameOrUnreadable answer answer :=
  .inl rfl

theorem bind {f g : α → Except UnwindError β} (h : SameOrUnreadable part whole)
    (hf : ∀ a, SameOrUnreadable (f a) (g a)) : SameOrUnreadable (part >>= f) (whole >>= g) := by
  obtain rfl | ⟨addr, rfl⟩ := h
  · cases part with
    | ok a => exact hf a
    | error e => exact .refl _
  · exact .inr ⟨addr, rfl⟩

theorem ite {c : Prop} [Decidable c] {other other' : Except UnwindError α}
    (hfirst : SameOrUnreadable part whole) (hsecond : SameOrUnreadable other other') :
    SameOrUnreadable (if c then part else other) (if c then whole else other') := by
  split
  · exact hfirst
  · exact hsecond

/-- An answer of the part is one of the whole. -/
theorem eq_ok {a : α} (h : SameOrUnreadable part whole) (hpart : part = .ok a) : whole = .ok a := by
  obtain rfl | ⟨addr, rfl⟩ := h
  · exact hpart
  · cases hpart

theorem eq_error {defect : Defect} (h : SameOrUnreadable part whole)
    (hpart : part = .error (.invalidArgument defect)) :
    whole = .error (.invalidArgument defect) := by
  obtain rfl | ⟨addr, rfl⟩ := h
  · exact hpart
  · cases hpart

end SameOrUnreadable

/-- Wherever they begin, the scan of the part does what that of the whole does,
unless some memory cannot be read. -/
def Scan.SameOrUnreadable (part whole : Scan α) : Prop :=
  ∀ pos, part pos = whole pos ∨ ∃ addr last, part pos = .error (.unreadable addr) last

namespace Scan.SameOrUnreadable

variable {part whole : Scan α}

theorem refl (scan : Scan α) : SameOrUnreadable scan scan :=
  fun _ => .inl rfl

theorem lift {given given' : Except UnwindError α}
    (h : StackWalk.SameOrUnreadable given given') :
    SameOrUnreadable (liftM given) (liftM given') := by
  intro pos
  obtain rfl | ⟨addr, rfl⟩ := h
  · exact .inl rfl
  · exact .inr ⟨addr, pos, rfl⟩

theorem bind {f g : α → Scan β} (h : SameOrUnreadable part whole)
    (hf : ∀ a, SameOrUnreadable (f a) (g a)) : SameOrUnreadable (part >>= f) (whole >>= g) := by
  intro pos
  rw [Action.bind_apply, Action.bind_apply]
  obtain hsame | ⟨addr, last, hmissing⟩ := h pos
  · rw [hsame]
    cases whole pos with
    | ok a next => exact hf a next
    | error e next => exact .inl rfl
  · rw [hmissing]
    exact .inr ⟨addr, last, rfl⟩

theorem map (f : α → β) (h : SameOrUnreadable part whole) :
    SameOrUnreadable (f <$> part) (f <$> whole) := by
  rw [map_eq_pure_bind, map_eq_pure_bind]
  exact bind h fun a => refl _

theorem ite {c : Prop} [Decidable c] {other other' : Scan α}
    (hfirst : SameOrUnreadable part whole) (hsecond : SameOrUnreadable other other') :
    SameOrUnreadable (if c then part else other) (if c then whole else other') := by
  split
  · exact hfirst
  · exact hsecond

theorem answer (h : SameOrUnreadable part whole) (pos : UInt64) :
    StackWalk.SameOrUnreadable (part.answer pos) (whole.answer pos) := by
  unfold Action.answer Action.perform
  obtain hsame | ⟨addr, last, hmissing⟩ := h pos
  · rw [hsame]
    exact .refl _
  · rw [hmissing]
    exact .inr ⟨addr, rfl⟩

end Scan.SameOrUnreadable

/-! ## Parts of a memory -/

namespace Target

/-- Of every byte, the part has what the whole has or cannot read it. -/
structure PartOf (part whole : Target) : Prop where
  arch_eq : part.arch = whole.arch
  readByte : ∀ addr, SameOrUnreadable (part.readByte addr) (whole.readByte addr)

/-- The memory with the words unreadable that hold one of the bytes at `hidden`. -/
def without (target : Target) (hidden : List UInt64) : Target :=
  { target with
    loadWord := fun addr =>
      if addr ∈ hidden.map fun byte => alignDown byte target.arch.wordSize then
        .error (.unreadable addr)
      else
        target.loadWord addr }

/-- The second memory is the first one, but for the bytes at `hidden`. -/
structure SameOutside (first second : Target) (hidden : List UInt64) : Prop where
  arch_eq : second.arch = first.arch
  readByte : ∀ addr, addr ∉ hidden → second.readByte addr = first.readByte addr

theorem SameOutside.refl (target : Target) (hidden : List UInt64) :
    target.SameOutside target hidden where
  arch_eq := rfl
  readByte _ _ := rfl

/-- What is left without some words is a part of every memory that differs in
the hidden bytes only. -/
theorem SameOutside.partOf_without {first second : Target} {hidden : List UInt64}
    (h : first.SameOutside second hidden) : (first.without hidden).PartOf second where
  arch_eq := h.arch_eq.symm
  readByte addr := by
    by_cases hmem : alignDown addr first.arch.wordSize ∈
        hidden.map fun byte => alignDown byte first.arch.wordSize
    · refine .inr ⟨alignDown addr first.arch.wordSize, ?_⟩
      simp only [Target.readByte, readWord, without, if_pos hmem, error_bind]
    · have hshown : addr ∉ hidden := fun hin => hmem (List.mem_map_of_mem hin)
      rw [h.readByte addr hshown]
      left
      simp only [Target.readByte, readWord, without, if_neg hmem]

/-! ## Readers -/

section

variable {part whole : Target} (h : part.PartOf whole)

include h

theorem readBytes_sameOrUnreadable (count : Nat) (pos : UInt64) :
    SameOrUnreadable (part.readBytes pos count) (whole.readBytes pos count) := by
  induction count generalizing pos with
  | zero => exact .refl _
  | succ count ih => exact .bind (h.readByte pos) fun _ => .bind (ih _) fun _ => .refl _

theorem readU8_sameOrUnreadable : Scan.SameOrUnreadable part.readU8 whole.readU8 :=
  .bind (.refl _) fun pos => .bind (.refl _) fun _ =>
    .bind (.lift (h.readByte pos)) fun _ => .refl _

theorem readUInt_sameOrUnreadable (size : Nat) :
    Scan.SameOrUnreadable (part.readUInt size) (whole.readUInt size) := by
  unfold readUInt
  rw [h.arch_eq]
  exact .bind (.refl _) fun pos => .bind (.refl _) fun _ =>
    .bind (.lift (readBytes_sameOrUnreadable h size pos)) fun _ => .refl _

theorem readTargetWord_sameOrUnreadable :
    Scan.SameOrUnreadable part.readTargetWord whole.readTargetWord := by
  unfold readTargetWord
  rw [h.arch_eq]
  exact readUInt_sameOrUnreadable h _

theorem readLeb128Bytes_sameOrUnreadable :
    Scan.SameOrUnreadable part.readLeb128Bytes whole.readLeb128Bytes := by
  intro pos
  -- Where the part has read a byte, the whole has read the same byte.
  have hbyte {pos byte next} (hread : part.readU8 pos = .ok byte next) :
      whole.readU8 pos = .ok byte next := by
    obtain hsame | ⟨_, _, hmissing⟩ := readU8_sameOrUnreadable h pos
    · exact hsame.symm.trans hread
    · rw [hread] at hmissing
      cases hmissing
  fun_induction part.readLeb128Bytes pos with
  | case1 pos e next hread =>
      rw [readLeb128Bytes_eq]
      obtain hsame | ⟨addr, last, hmissing⟩ := readU8_sameOrUnreadable h pos
      · rw [← hsame, hread]
        exact .inl rfl
      · rw [hread] at hmissing
        cases hmissing
        exact .inr ⟨_, _, rfl⟩
  | case2 pos byte next hread hmore rest past hrest ih =>
      rw [hrest] at ih
      obtain hafter | ⟨_, _, ⟨⟩⟩ := ih
      rw [readLeb128Bytes_eq, hbyte hread]
      exact .inl (by simp only [hmore, ← hafter, if_true])
  | case3 pos byte next hread hmore e past hrest ih =>
      rw [hrest] at ih
      rw [readLeb128Bytes_eq, hbyte hread]
      obtain hafter | ⟨addr, last, hmissing⟩ := ih
      · exact .inl (by simp only [hmore, ← hafter, if_true])
      · cases hmissing
        exact .inr ⟨_, _, rfl⟩
  | case4 pos byte next hread hlast =>
      rw [readLeb128Bytes_eq, hbyte hread]
      exact .inl (by simp only [hlast]; rfl)

theorem readULeb128_sameOrUnreadable :
    Scan.SameOrUnreadable part.readULeb128 whole.readULeb128 :=
  .bind (readLeb128Bytes_sameOrUnreadable h) fun _ => .refl _

theorem readSLeb128_sameOrUnreadable :
    Scan.SameOrUnreadable part.readSLeb128 whole.readSLeb128 :=
  .bind (readLeb128Bytes_sameOrUnreadable h) fun _ => .refl _

theorem readStored_sameOrUnreadable (format : ValueFormat) :
    Scan.SameOrUnreadable (part.readStored format) (whole.readStored format) := by
  cases format with
  | absptr => exact readTargetWord_sameOrUnreadable h
  | uleb128 => exact readULeb128_sameOrUnreadable h
  | sleb128 => exact .map _ (readSLeb128_sameOrUnreadable h)
  | udata2 | udata4 | udata8 | sdata8 => exact readUInt_sameOrUnreadable h _
  | sdata2 | sdata4 => exact .map _ (readUInt_sameOrUnreadable h _)

theorem readAlignedWord_sameOrUnreadable :
    Scan.SameOrUnreadable part.readAlignedWord whole.readAlignedWord := by
  unfold readAlignedWord
  rw [h.arch_eq]
  exact .bind (.refl _) fun _ => .bind (.refl _) fun _ => .bind (.refl _) fun _ =>
    readTargetWord_sameOrUnreadable h

theorem pointerOfStored_sameOrUnreadable (encoding : PointerEncoding) (bases : PointerBases)
    (fieldAddr value : UInt64) :
    SameOrUnreadable (part.pointerOfStored encoding bases fieldAddr value)
      (whole.pointerOfStored encoding bases fieldAddr value) := by
  unfold pointerOfStored
  rw [h.arch_eq]
  refine .ite (.refl _) (.bind (.refl _) fun base => .bind (.refl _) fun pointer => ?_)
  exact .ite ((readTargetWord_sameOrUnreadable h).answer _) (.refl _)

theorem readPointer_sameOrUnreadable (encoding : PointerEncoding) (bases : PointerBases) :
    Scan.SameOrUnreadable (part.readPointer encoding bases) (whole.readPointer encoding bases) :=
  .ite (.refl _) <| .ite (readAlignedWord_sameOrUnreadable h) <| .bind (.refl _) fun _ =>
    .bind (.refl _) fun format => .bind (readStored_sameOrUnreadable h format) fun _ =>
      .lift (pointerOfStored_sameOrUnreadable h _ _ _ _)

end

end Target
end StackWalk
