import Mathlib.Tactic
import StackWalk.AddressSpace
import StackWalk.Proofs.Action
import StackWalk.Proofs.Leb128

/-!
# Targets that concur

Of two readers of one memory each may be refused another part of it, as when
only one of them probes what it reads.  Where both read a word they read the
same.  So what both succeed in reading is the same, and they read as far.
-/

namespace StackWalk

/-- The same words for the same kind of processor, wherever both are read. -/
structure Target.Concurs (first second : Target) : Prop where
  arch_eq : first.arch = second.arch
  loadWord : ∀ addr word word', first.loadWord addr = .ok word →
    second.loadWord addr = .ok word' → word = word'

theorem Target.Concurs.refl (target : Target) : target.Concurs target where
  arch_eq := rfl
  loadWord _ _ _ hfirst hsecond := Except.ok.inj (hfirst.symm.trans hsecond)

/-- To probe before reading changes nothing that is read. -/
theorem AddressSpace.target_concurs {World Thread : Type} (space : AddressSpace World Thread)
    (world : World) (thread : Thread) (validate validate' : Bool) :
    (space.target world thread validate).Concurs (space.target world thread validate') := by
  have hload (validate : Bool) (addr word : UInt64)
      (h : (space.target world thread validate).loadWord addr = .ok word) :
      space.loadWord world thread addr = .ok word := by
    cases validate with
    | false => exact h
    | true =>
        obtain ⟨_, _, hword⟩ := bind_eq_ok_iff.mp h
        exact hword
  refine ⟨rfl, fun addr word word' hfirst hsecond => ?_⟩
  exact Except.ok.inj ((hload _ _ _ hfirst).symm.trans (hload _ _ _ hsecond))

/-! ## Scans that read as far -/

/-- Begun at `pos`, the scans give related answers and read as far, if both
give one. -/
def Scan.AgreeAt {α β : Type} (R : α → β → Prop) (pos : UInt64) (first : Scan α)
    (second : Scan β) : Prop :=
  ∀ a b next last, first pos = .ok a next → second pos = .ok b last → R a b ∧ next = last

namespace Scan.AgreeAt

variable {α β γ δ : Type} {R : α → β → Prop} {S : γ → δ → Prop} {pos : UInt64}
  {first : Scan α} {second : Scan β}

theorem pure {a : α} {b : β} (h : R a b) : AgreeAt R pos (Pure.pure a) (Pure.pure b) := by
  rintro _ _ _ _ ⟨⟩ ⟨⟩
  exact ⟨h, rfl⟩

theorem throw (e : UnwindError) : AgreeAt R pos (MonadExcept.throw e) second := by
  rintro _ _ _ _ ⟨⟩

theorem set (next : UInt64) :
    AgreeAt (fun _ _ => True) pos (MonadStateOf.set next : Scan PUnit)
      (MonadStateOf.set next : Scan PUnit) := by
  rintro _ _ _ _ ⟨⟩ ⟨⟩
  exact ⟨trivial, rfl⟩

theorem lift {first : Except UnwindError α} {second : Except UnwindError β}
    (h : ∀ a b, first = .ok a → second = .ok b → R a b) :
    AgreeAt R pos (liftM first : Scan α) (liftM second : Scan β) := by
  intro a b next last hfirst hsecond
  cases first <;> cases hfirst
  cases second <;> cases hsecond
  exact ⟨h _ _ rfl rfl, rfl⟩

theorem bind {f : α → Scan γ} {g : β → Scan δ} (hscan : AgreeAt R pos first second)
    (hf : ∀ a b next, R a b → AgreeAt S next (f a) (g b)) :
    AgreeAt S pos (first >>= f) (second >>= g) := by
  intro c d next last hfirst hsecond
  obtain ⟨a, middle, ha, hc⟩ := Action.ok_of_bind hfirst
  obtain ⟨b, middle', hb, hd⟩ := Action.ok_of_bind hsecond
  obtain ⟨hab, rfl⟩ := hscan a b middle middle' ha hb
  exact hf a b middle hab c d next last hc hd

theorem bind_eq {second : Scan α} {f : α → Scan γ} {g : α → Scan δ}
    (hscan : AgreeAt Eq pos first second) (hf : ∀ a next, AgreeAt S next (f a) (g a)) :
    AgreeAt S pos (first >>= f) (second >>= g) := by
  refine bind hscan fun a b next hab => ?_
  subst hab
  exact hf a next

theorem lift_bind {given : Except UnwindError α} {f : α → Scan γ} {g : α → Scan δ}
    (hf : ∀ a, AgreeAt S pos (f a) (g a)) :
    AgreeAt S pos (liftM given >>= f) (liftM given >>= g) := by
  cases given with
  | ok a => exact hf a
  | error e => rintro _ _ _ _ ⟨⟩

theorem get_bind {f : UInt64 → Scan γ} {g : UInt64 → Scan δ} (h : AgreeAt S pos (f pos) (g pos)) :
    AgreeAt S pos (get >>= f) (get >>= g) :=
  h

theorem map {second : Scan α} (f : α → γ) (h : AgreeAt Eq pos first second) :
    AgreeAt Eq pos (f <$> first) (f <$> second) := by
  rw [map_eq_pure_bind, map_eq_pure_bind]
  exact bind_eq h fun _ _ => pure rfl

theorem ite {c : Prop} [Decidable c] {first' : Scan α} {second' : Scan β}
    (hfirst : AgreeAt R pos first second) (hsecond : AgreeAt R pos first' second') :
    AgreeAt R pos (if c then first else first') (if c then second else second') := by
  split
  · exact hfirst
  · exact hsecond

theorem mono {R' : α → β → Prop} (h : AgreeAt R pos first second) (hR : ∀ a b, R a b → R' a b) :
    AgreeAt R' pos first second := by
  intro a b next last hfirst hsecond
  obtain ⟨hab, hnext⟩ := h a b next last hfirst hsecond
  exact ⟨hR a b hab, hnext⟩

theorem answer {a : α} {b : β} (h : AgreeAt R pos first second)
    (hfirst : Action.answer first pos = .ok a) (hsecond : Action.answer second pos = .ok b) :
    R a b := by
  obtain ⟨_, hfirst⟩ := Action.answer_eq_ok hfirst
  obtain ⟨_, hsecond⟩ := Action.answer_eq_ok hsecond
  exact (h a b _ _ hfirst hsecond).1

end Scan.AgreeAt

/-! ## Readers -/

namespace Target

open Scan (AgreeAt)

variable {first second : Target} (h : first.Concurs second)

include h

theorem readWord_eq_of_concurs {addr word word' : UInt64}
    (hfirst : first.readWord addr = .ok word) (hsecond : second.readWord addr = .ok word') :
    word = word' := by
  obtain ⟨loaded, hloaded, hcut⟩ := bind_eq_ok_iff.mp hfirst
  obtain ⟨loaded', hloaded', hcut'⟩ := bind_eq_ok_iff.mp hsecond
  cases hcut
  cases hcut'
  rw [h.loadWord _ _ _ hloaded hloaded', h.arch_eq]

theorem readByte_eq_of_concurs {addr : UInt64} {byte byte' : UInt8}
    (hfirst : first.readByte addr = .ok byte) (hsecond : second.readByte addr = .ok byte') :
    byte = byte' := by
  unfold readByte at hfirst hsecond
  rw [h.arch_eq] at hfirst
  obtain ⟨word, hread, hbyte⟩ := bind_eq_ok_iff.mp hfirst
  obtain ⟨word', hread', hbyte'⟩ := bind_eq_ok_iff.mp hsecond
  cases hbyte
  cases hbyte'
  rw [readWord_eq_of_concurs h hread hread']

theorem readBytes_eq_of_concurs {count : Nat} {addr : UInt64} {bytes bytes' : List UInt8}
    (hfirst : first.readBytes addr count = .ok bytes)
    (hsecond : second.readBytes addr count = .ok bytes') : bytes = bytes' := by
  induction count generalizing addr bytes bytes' with
  | zero =>
      cases hfirst
      cases hsecond
      rfl
  | succ count ih =>
      rw [readBytes] at hfirst hsecond
      obtain ⟨byte, hbyte, hfirst⟩ := bind_eq_ok_iff.mp hfirst
      obtain ⟨rest, hrest, hbytes⟩ := bind_eq_ok_iff.mp hfirst
      obtain ⟨byte', hbyte', hsecond⟩ := bind_eq_ok_iff.mp hsecond
      obtain ⟨rest', hrest', hbytes'⟩ := bind_eq_ok_iff.mp hsecond
      cases hbytes
      cases hbytes'
      rw [readByte_eq_of_concurs h hbyte hbyte', ih hrest hrest']

theorem readU8_agreeAt (pos : UInt64) : AgreeAt Eq pos first.readU8 second.readU8 :=
  .get_bind <| .lift_bind fun next =>
    .bind_eq (.lift fun _ _ => readByte_eq_of_concurs h) fun _ _ =>
      .bind (.set next) fun _ _ _ _ => .pure rfl

theorem readUInt_agreeAt (size : Nat) (pos : UInt64) :
    AgreeAt Eq pos (first.readUInt size) (second.readUInt size) := by
  unfold readUInt
  rw [h.arch_eq]
  exact .get_bind <| .lift_bind fun next =>
    .bind_eq (.lift fun _ _ => readBytes_eq_of_concurs h) fun _ _ =>
      .bind (.set next) fun _ _ _ _ => .pure rfl

theorem readTargetWord_agreeAt (pos : UInt64) :
    AgreeAt Eq pos first.readTargetWord second.readTargetWord := by
  unfold readTargetWord
  rw [h.arch_eq]
  exact readUInt_agreeAt h _ pos

theorem readLeb128Bytes_agreeAt (pos : UInt64) :
    AgreeAt Eq pos first.readLeb128Bytes second.readLeb128Bytes := by
  intro bytes bytes' last last' hfirst hsecond
  fun_induction first.readLeb128Bytes pos generalizing bytes bytes' last last' with
  | case1 => cases hfirst
  | case2 pos byte next hread hmore rest past hrest ih =>
      cases hfirst
      rw [readLeb128Bytes_eq] at hsecond
      split at hsecond
      · cases hsecond
      · rename_i byte' next' hread'
        obtain ⟨rfl, rfl⟩ := readU8_agreeAt h pos _ _ _ _ hread hread'
        rw [if_pos hmore] at hsecond
        split at hsecond
        · rename_i rest' past' hrest'
          cases hsecond
          obtain ⟨rfl, rfl⟩ := ih _ _ _ _ hrest hrest'
          exact ⟨rfl, rfl⟩
        · cases hsecond
  | case3 => cases hfirst
  | case4 pos byte next hread hlast =>
      cases hfirst
      rw [readLeb128Bytes_eq] at hsecond
      split at hsecond
      · cases hsecond
      · rename_i byte' next' hread'
        obtain ⟨rfl, rfl⟩ := readU8_agreeAt h pos _ _ _ _ hread hread'
        rw [if_neg hlast] at hsecond
        cases hsecond
        exact ⟨rfl, rfl⟩

theorem readULeb128_agreeAt (pos : UInt64) :
    AgreeAt Eq pos first.readULeb128 second.readULeb128 :=
  .bind_eq (readLeb128Bytes_agreeAt h pos) fun _ _ => .pure rfl

theorem readSLeb128_agreeAt (pos : UInt64) :
    AgreeAt Eq pos first.readSLeb128 second.readSLeb128 :=
  .bind_eq (readLeb128Bytes_agreeAt h pos) fun _ _ => .pure rfl

theorem readStored_agreeAt (format : ValueFormat) (pos : UInt64) :
    AgreeAt Eq pos (first.readStored format) (second.readStored format) := by
  cases format with
  | absptr => exact readTargetWord_agreeAt h pos
  | uleb128 => exact readULeb128_agreeAt h pos
  | sleb128 => exact .map _ (readSLeb128_agreeAt h pos)
  | udata2 | udata4 | udata8 | sdata8 => exact readUInt_agreeAt h _ pos
  | sdata2 | sdata4 => exact .map _ (readUInt_agreeAt h _ pos)

theorem readAlignedWord_agreeAt (pos : UInt64) :
    AgreeAt Eq pos first.readAlignedWord second.readAlignedWord := by
  unfold readAlignedWord
  rw [h.arch_eq]
  exact .get_bind <| .lift_bind fun above =>
    .bind (.set _) fun _ _ next _ => readTargetWord_agreeAt h next

theorem pointerOfStored_eq_of_concurs {encoding : PointerEncoding} {bases : PointerBases}
    {fieldAddr value pointer pointer' : UInt64}
    (hfirst : first.pointerOfStored encoding bases fieldAddr value = .ok pointer)
    (hsecond : second.pointerOfStored encoding bases fieldAddr value = .ok pointer') :
    pointer = pointer' := by
  unfold pointerOfStored at hfirst hsecond
  split at hfirst
  · rw [if_pos ‹_›] at hsecond
    exact Except.ok.inj (hfirst.symm.trans hsecond)
  · rw [if_neg ‹_›] at hsecond
    obtain ⟨base, hbase, hfirst⟩ := bind_eq_ok_iff.mp hfirst
    obtain ⟨base', hbase', hsecond⟩ := bind_eq_ok_iff.mp hsecond
    obtain rfl := Except.ok.inj (hbase.symm.trans hbase')
    obtain ⟨found, hfound, hfirst⟩ := bind_eq_ok_iff.mp hfirst
    obtain ⟨found', hfound', hsecond⟩ := bind_eq_ok_iff.mp hsecond
    obtain rfl := Except.ok.inj (hfound.symm.trans hfound')
    rw [h.arch_eq] at hfirst
    split at hfirst
    · rw [if_pos ‹_›] at hsecond
      exact (readTargetWord_agreeAt h _).answer hfirst hsecond
    · rw [if_neg ‹_›] at hsecond
      exact Except.ok.inj (hfirst.symm.trans hsecond)

theorem readPointer_agreeAt (encoding : PointerEncoding) (bases : PointerBases) (pos : UInt64) :
    AgreeAt Eq pos (first.readPointer encoding bases) (second.readPointer encoding bases) :=
  .ite (.pure rfl) <| .ite (readAlignedWord_agreeAt h pos) <| .get_bind <| .lift_bind fun format =>
    .bind_eq (readStored_agreeAt h format pos) fun _ _ =>
      .lift fun _ _ => pointerOfStored_eq_of_concurs h

/-- No base changes how far a pointer is read. -/
theorem readPointer_readsAsFar (encoding : PointerEncoding) (bases bases' : PointerBases)
    (pos : UInt64) :
    AgreeAt (fun _ _ => True) pos (first.readPointer encoding bases)
      (second.readPointer encoding bases') :=
  .ite (.pure trivial) <| .ite ((readAlignedWord_agreeAt h pos).mono fun _ _ _ => trivial) <|
    .get_bind <| .lift_bind fun format =>
      .bind_eq (readStored_agreeAt h format pos) fun _ _ => .lift fun _ _ _ _ => trivial

end Target
end StackWalk
