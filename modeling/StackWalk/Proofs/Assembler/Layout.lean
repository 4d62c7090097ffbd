import StackWalk.Assembler.EhFrame
import StackWalk.Proofs.Cfi.Entry
import StackWalk.Proofs.Image.WordImage

/-!
# Where a section has its entries

Laying out more entries leaves the earlier ones where they are, so a section
holds the bytes of each entry at the address it was given when it was next.
An entry is its length, its identifier, its fields and its program, and after
the padding its size is a multiple of the word size.
-/

namespace StackWalk.Assembler

open Cfi

def EntrySpec.program : EntrySpec → List Call
  | .cie _ _ _ program => program
  | .fde _ _ _ program => program

namespace EhFrame

variable {arch : Arch} {base : UInt64} {frame : EhFrame} {spec : EntrySpec}
  {before after : List EntrySpec}

/-! ## One entry -/

def identifier (frame : EhFrame) : EntrySpec → UInt64
  | .cie .. => 0
  | .fde cie .. => frame.here + 4 - frame.addressOf cie

def fields (frame : EhFrame) : EntrySpec → List UInt8
  | .cie codeAlign dataAlign returnAddress _ => plainCieFields codeAlign dataAlign returnAddress
  | .fde _ start stop _ => plainFdeFields frame.arch start stop

/-- How many instructions that do nothing come last. -/
def padding (frame : EhFrame) (spec : EntrySpec) : Nat :=
  (frame.arch.addressSize - (4 + (frame.body spec).length) % frame.arch.addressSize) %
    frame.arch.addressSize

/-- The program of an entry up to the end of the entry. -/
def paddedProgram (frame : EhFrame) (spec : EntrySpec) : List UInt8 :=
  assemble spec.program ++ List.replicate (frame.padding spec) 0

theorem body_eq (frame : EhFrame) (spec : EntrySpec) :
    frame.body spec = frame.uint 4 (frame.identifier spec) ++
      (frame.fields spec ++ assemble spec.program) := by
  have hname : "zR".toUTF8.toList = [0x7a, 0x52] := by decide +kernel
  cases spec with
  | cie codeAlign dataAlign returnAddress program =>
      rw [body, hname]
      simp [identifier, fields, plainCieFields, EntrySpec.program]
  | fde cie start stop program =>
      simp [body, identifier, fields, plainFdeFields, EntrySpec.program, uint]

/-- What the first field of an entry says. -/
def lengthOf (frame : EhFrame) (spec : EntrySpec) : Nat :=
  4 + (frame.fields spec).length + (frame.paddedProgram spec).length

/-- The addresses of an entry's program. -/
def programSpan (frame : EhFrame) (spec : EntrySpec) : Span where
  start := frame.here + 8 + UInt64.ofNat (frame.fields spec).length
  stop := frame.here + 4 + UInt64.ofNat (frame.lengthOf spec)

theorem length_uint (frame : EhFrame) (size : Nat) (value : UInt64) :
    (frame.uint size value).length = size :=
  length_bytesOfWord frame.arch.endian size value

theorem lengthOf_eq (frame : EhFrame) (spec : EntrySpec) :
    frame.lengthOf spec = (frame.body spec).length + frame.padding spec := by
  simp only [lengthOf, paddedProgram, body_eq, List.length_append, length_uint,
    List.length_replicate]
  omega

theorem entryBytes_eq (frame : EhFrame) (spec : EntrySpec) :
    frame.entryBytes spec = frame.uint 4 (UInt64.ofNat (frame.lengthOf spec)) ++
      (frame.uint 4 (frame.identifier spec) ++
        (frame.fields spec ++ frame.paddedProgram spec)) := by
  rw [lengthOf_eq]
  change frame.uint 4 (UInt64.ofNat ((frame.body spec).length + frame.padding spec)) ++
    frame.body spec ++ List.replicate (frame.padding spec) 0 = _
  conv_lhs => enter [1, 2]; rw [body_eq]
  simp only [paddedProgram, List.append_assoc]

theorem length_entryBytes (frame : EhFrame) (spec : EntrySpec) :
    (frame.entryBytes spec).length = 4 + frame.lengthOf spec := by
  simp only [entryBytes_eq, List.length_append, length_uint, lengthOf]
  omega

theorem length_entryBytes_mod (frame : EhFrame) (hpos : 0 < frame.arch.addressSize)
    (spec : EntrySpec) :
    (frame.entryBytes spec).length % frame.arch.addressSize = 0 := by
  rw [length_entryBytes, lengthOf_eq, padding, ← Nat.add_assoc]
  generalize 4 + (frame.body spec).length = content
  have hrest := Nat.mod_lt content hpos
  have hwhole := Nat.mod_add_div content frame.arch.addressSize
  have hfull : content + (frame.arch.addressSize - content % frame.arch.addressSize) =
      frame.arch.addressSize * (content / frame.arch.addressSize + 1) := by
    rw [Nat.mul_succ]
    omega
  rw [Nat.add_mod_mod, hfull, Nat.mul_mod_right]

/-! ## The entries of a section -/

/-- More entries have been laid out, and nothing that was there has moved. -/
structure Extends (first second : EhFrame) : Prop where
  arch : second.arch = first.arch
  base : second.base = first.base
  bytes : first.bytes <+: second.bytes
  addresses : first.addresses <+: second.addresses

theorem extends_add (frame : EhFrame) (spec : EntrySpec) : frame.Extends (frame.add spec) :=
  ⟨rfl, rfl, List.prefix_append _ _, List.prefix_append _ _⟩

theorem Extends.trans {first second third : EhFrame} (h : first.Extends second)
    (hnext : second.Extends third) : first.Extends third where
  arch := hnext.arch.trans h.arch
  base := hnext.base.trans h.base
  bytes := h.bytes.trans hnext.bytes
  addresses := h.addresses.trans hnext.addresses

theorem extends_foldl (frame : EhFrame) (specs : List EntrySpec) :
    frame.Extends (specs.foldl add frame) := by
  induction specs generalizing frame with
  | nil => exact ⟨rfl, rfl, List.prefix_rfl, List.prefix_rfl⟩
  | cons spec rest ih => exact (extends_add frame spec).trans (ih (frame.add spec))

theorem layOut_append (arch : Arch) (base : UInt64) (before after : List EntrySpec) :
    layOut arch base (before ++ after) = after.foldl add (layOut arch base before) :=
  List.foldl_append

theorem extends_layOut (arch : Arch) (base : UInt64) (before after : List EntrySpec) :
    (layOut arch base before).Extends (layOut arch base (before ++ after)) := by
  rw [layOut_append]
  exact extends_foldl _ _

@[simp] theorem arch_layOut (arch : Arch) (base : UInt64) (specs : List EntrySpec) :
    (layOut arch base specs).arch = arch :=
  (extends_foldl (empty arch base) specs).arch

@[simp] theorem base_layOut (arch : Arch) (base : UInt64) (specs : List EntrySpec) :
    (layOut arch base specs).base = base :=
  (extends_foldl (empty arch base) specs).base

theorem length_addresses_foldl (frame : EhFrame) (specs : List EntrySpec) :
    (specs.foldl add frame).addresses.length = frame.addresses.length + specs.length := by
  induction specs generalizing frame with
  | nil => rfl
  | cons spec rest ih =>
      rw [List.foldl_cons, ih, add, List.length_append, List.length_cons, List.length_cons,
        List.length_nil]
      omega

theorem length_addresses_layOut (arch : Arch) (base : UInt64) (specs : List EntrySpec) :
    (layOut arch base specs).addresses.length = specs.length := by
  rw [layOut, length_addresses_foldl]
  exact Nat.zero_add _

/-- Earlier entries stay where they are. -/
theorem addressOf_layOut_append {index : Nat} (h : index < before.length) :
    (layOut arch base (before ++ after)).addressOf index =
      (layOut arch base before).addressOf index := by
  have hextends := extends_layOut arch base before after
  rw [← length_addresses_layOut arch base before] at h
  rw [addressOf, addressOf, List.prefix_iff_getElem?.mp hextends.addresses index h,
    List.getElem?_eq_getElem h]

theorem addressOf_layOut_next (arch : Arch) (base : UInt64) {specs : List EntrySpec}
    (hsplit : specs = before ++ spec :: after) :
    (layOut arch base specs).addressOf before.length = (layOut arch base before).here := by
  have hassoc : specs = (before ++ [spec]) ++ after := by
    rw [hsplit, List.append_assoc, List.singleton_append]
  rw [hassoc, addressOf_layOut_append (by simp), layOut_append]
  change (((layOut arch base before).addresses ++ [(layOut arch base before).here])[_]?).getD 0 = _
  rw [← length_addresses_layOut arch base before]
  simp

theorem bytes_layOut_next (arch : Arch) (base : UInt64) (before : List EntrySpec)
    (spec : EntrySpec) :
    (layOut arch base (before ++ [spec])).bytes =
      (layOut arch base before).bytes ++ (layOut arch base before).entryBytes spec := by
  rw [layOut_append]
  rfl

theorem here_layOut_next (arch : Arch) (base : UInt64) (before : List EntrySpec)
    (spec : EntrySpec) :
    (layOut arch base (before ++ [spec])).here =
      (layOut arch base before).here +
        UInt64.ofNat ((layOut arch base before).entryBytes spec).length := by
  simp only [here, base_layOut, bytes_layOut_next, Target.add_ofNat_length]

end EhFrame
end StackWalk.Assembler
