import StackWalk.Proofs.Caller.Bounds
import StackWalk.Proofs.Cfi.EntryLayout
import StackWalk.Proofs.Cfi.WithoutTable
import StackWalk.Proofs.Cfi.Tables

/-!
# What an accepted entry guarantees

Whatever bytes stand in memory, an entry that is accepted has a range, factors
and a column that make sense, and its programs lie between its header and its
end.  The rows that are computed from it name columns of the register file
only.
-/

namespace StackWalk

/-! ## Columns that a table names -/

/-- The columns that the rules of a table name are among the first `size`. -/
structure RuleTable.NamesBelow (size : Column) (table : RuleTable) : Prop where
  cfa : ∀ register offset, table.cfa = .registerOffset register offset → register < size
  rules : ∀ reg source, table.ruleOf reg = .inRegister source → source < size

namespace RuleTable

variable {table after : RuleTable}

theorem ruleOf_withRule_cases (table : RuleTable) (reg other : Column) (rule : RegisterRule) :
    (table.withRule reg rule).ruleOf other = rule ∨
      (table.withRule reg rule).ruleOf other = table.ruleOf other := by
  by_cases hreg : reg = other
  · by_cases hin : reg < maxColumns
    · left
      rw [← hreg, ruleOf_withRule_self hin]
    · right
      simp [ruleOf, withRule, ← hreg, hin]
  · right
    exact ruleOf_withRule_ne hreg

theorem set_eq_ok {reg : UInt64} {rule : RegisterRule} (h : table.set reg rule = .ok after) :
    after = table.withRule reg.toNat rule := by
  unfold set at h
  split at h <;> cases h
  rfl

theorem get_eq_ok {reg : UInt64} {rule : RegisterRule} (h : table.get reg = .ok rule) :
    rule = table.ruleOf reg.toNat := by
  unfold get at h
  split at h <;> cases h
  rfl

theorem NamesBelow.set {size : Column} {reg : UInt64} {rule : RegisterRule}
    (hbelow : table.NamesBelow size)
    (hrule : ∀ source, rule = .inRegister source → source < size)
    (h : table.set reg rule = .ok after) : after.NamesBelow size := by
  obtain rfl := set_eq_ok h
  refine ⟨hbelow.cfa, fun other source hsource => ?_⟩
  rcases ruleOf_withRule_cases table reg.toNat other rule with hnew | hold
  · exact hrule source (hnew.symm.trans hsource)
  · exact hbelow.rules other source (hold.symm.trans hsource)

theorem namesBelow_default {arch : Arch} (hsp : arch.sp < arch.numRegs) :
    (default arch).NamesBelow arch.numRegs := by
  refine ⟨?_, fun reg source hsource => ?_⟩
  · rintro _ _ ⟨⟩
    exact hsp
  · rw [ruleOf_default] at hsource
    cases hsource

end RuleTable

namespace Cfi

variable {target : Target} {frameSection : FrameSection} {bases : PointerBases}
  {address : UInt64}

theorem keptByChanges_namesBelow (arch : Arch) :
    KeptByChanges arch (RuleTable.NamesBelow arch.numRegs) where
  cfaRegister table register offset hbelow hregister :=
    ⟨by rintro _ _ ⟨⟩; exact hregister, hbelow.rules⟩
  cfaOffset table register before offset hbelow hcfa :=
    ⟨by rintro _ _ ⟨⟩; exact hbelow.cfa register before hcfa, hbelow.rules⟩
  cfaExpression table addr hbelow := ⟨nofun, hbelow.rules⟩
  set table after reg rule hbelow hset hrule := hbelow.set hrule hset
  restore initial table after reg rule hinitial hbelow hget hset := by
    refine hbelow.set (fun source hsource => ?_) hset
    exact hinitial.rules reg.toNat source ((RuleTable.get_eq_ok hget).symm.trans hsource)

/-! ## Fields -/

/-- What is checked of the fields of a CIE. -/
structure CieFields.Checked (arch : Arch) (fields : CieFields) : Prop where
  version : fields.version = 1 ∨ fields.version = 3 ∨ fields.version = 4
  codeAlign : fields.codeAlign ≠ 0
  dataAlign : fields.dataAlign ≠ 0
  returnAddress : fields.returnAddress < arch.numRegs

theorem isKnownVersion_iff {version : UInt8} :
    isKnownVersion version = true ↔ version = 1 ∨ version = 3 ∨ version = 4 := by
  simp [isKnownVersion, or_assoc]

theorem checkFactors_eq_ok_iff {codeAlign : UInt64} {dataAlign : Int64} :
    checkFactors codeAlign dataAlign = .ok () ↔ codeAlign ≠ 0 ∧ dataAlign ≠ 0 := by
  unfold checkFactors
  grind

theorem readCieFields_checked (target : Target) (pos : UInt64) :
    Action.Ensures (readCieFields target) pos fun fields _ => fields.Checked target.arch := by
  have hany {α : Type} (action : Scan α) (pos : UInt64) :
      Action.Ensures action pos fun _ _ => True := fun _ _ _ => trivial
  refine .bind (hany _ _) fun version _ _ => .ite (fun _ => .throw) fun hknown => ?_
  refine .bind (hany _ _) fun letters _ _ => .bind (hany _ _) fun _ _ _ =>
    .bind (hany _ _) fun codeAlign _ _ => .bind (hany _ _) fun dataAlign _ _ =>
    .bind (hany _ _) fun returnAddress _ _ => .bind .ofExcept ?_
  rintro _ _ ⟨hfactors, rfl⟩
  refine .bind .ofExcept ?_
  rintro column _ ⟨hcolumn, rfl⟩
  obtain ⟨hcode, hdata⟩ := checkFactors_eq_ok_iff.mp hfactors
  obtain ⟨hlt, rfl⟩ := Arch.checkReg_eq_ok_iff.mp hcolumn
  exact .pure ⟨isKnownVersion_iff.mp (by simpa using hknown), hcode, hdata, hlt⟩

/-- The program begins behind the length and the identifier of the entry at
`address`, and ends where the length says that the entry does. -/
def ProgramOf (target : Target) (address : UInt64) (program : Span) : Prop :=
  ∃ header length, HeaderLies target address header length ∧
    address.toNat + (if header.is64 then 20 else 8) ≤ program.start.toNat ∧
    program.start ≤ program.stop ∧
    program.stop.toNat = header.idField.toNat + length.toNat

theorem InOrder.programOf {header : EntryHeader} {length fieldsStop : UInt64} {data : DataSpan}
    {program : Span} (horder : InOrder address header fieldsStop data program)
    (hheader : HeaderLies target address header length) : ProgramOf target address program := by
  refine ⟨header, length, hheader, ?_, horder.start_le, ?_⟩
  · have hfields := UInt64.le_iff_toNat_le.mp horder.fields
    have hdata := UInt64.le_iff_toNat_le.mp (horder.dataStart)
    have hprogram : data.start.toNat ≤ program.start.toNat :=
      horder.dataStop ▸ Nat.le_add_right _ _
    have hbody := horder.body
    omega
  · rw [horder.stop, hheader.stop]

theorem parseCie_accepted {cie : Cie}
    (h : parseCie target address frameSection bases = .ok cie) :
    (∃ letters, (cie.fields letters).Checked target.arch) ∧
      ProgramOf target cie.address cie.program := by
  obtain ⟨rfl, header, letters, fieldsStop, data, dataRead, hheader, -, hlies⟩ :=
    parseCie_eq_ok_iff.mp h
  obtain ⟨length, hheader⟩ := entryHeader_eq_ok_iff.mp hheader
  exact ⟨⟨letters, readCieFields_checked target _ _ _ hlies.fields⟩,
    (hlies.inOrder hheader).programOf hheader⟩

theorem parseFde_accepted {fde : Fde}
    (h : parseFde target address frameSection bases = .ok fde) :
    fde.address = address ∧ parseCie target fde.cie.address frameSection bases = .ok fde.cie ∧
      (fde.start < fde.stop ∧ fde.stop ≤ target.arch.wordMask) ∧
      ProgramOf target fde.address fde.program := by
  obtain ⟨rfl, header, length, fieldsStop, data, dataRead, hheader, -, hcie, hlies⟩ :=
    parseFde_eq_ok_iff.mp h
  obtain ⟨size, hheader⟩ := entryHeader_eq_ok_iff.mp hheader
  have haddress := (parseCie_eq_ok_iff.mp hcie).1
  refine ⟨rfl, haddress ▸ hcie, ⟨hlies.covers, ?_⟩, (hlies.inOrder hheader).programOf hheader⟩
  rw [hlies.stop, UInt64.le_iff_toNat_le, UInt64.toNat_and]
  exact Nat.and_le_right

/-- Whatever an accepted FDE was read from, its range, its CIE, the programs of
both and all rows computed from it are in order. -/
theorem parseFde_wellFormed (harch : target.arch ∈ Arch.shipped) {fde : Fde}
    (h : parseFde target address frameSection bases = .ok fde) :
    (fde.start < fde.stop ∧ fde.stop ≤ target.arch.wordMask) ∧
    (fde.address = address ∧ ProgramOf target fde.address fde.program) ∧
    (parseCie target fde.cie.address frameSection bases = .ok fde.cie ∧
      (fde.cie.version = 1 ∨ fde.cie.version = 3 ∨ fde.cie.version = 4) ∧
      fde.cie.codeAlign ≠ 0 ∧ fde.cie.dataAlign ≠ 0 ∧
      fde.cie.returnAddress < target.arch.numRegs ∧
      ProgramOf target fde.cie.address fde.cie.program) ∧
    ∀ ws ip bases row, (rowAt target ws fde ip bases).1 = .ok row →
      row.returnAddress < target.arch.numRegs ∧
      row.initial.NamesBelow target.arch.numRegs ∧ row.current.NamesBelow target.arch.numRegs := by
  obtain ⟨haddress, hcie, hrange, hprogram⟩ := parseFde_accepted h
  obtain ⟨⟨letters, hchecked⟩, hcieProgram⟩ := parseCie_accepted hcie
  refine ⟨hrange, ⟨haddress, hprogram⟩, ⟨hcie, hchecked.version, hchecked.codeAlign,
    hchecked.dataAlign, hchecked.returnAddress, hcieProgram⟩, fun ws ip bases row hrow => ?_⟩
  obtain ⟨hcolumn, hinitial, hcurrent⟩ := rowAt_keepsTables (keptByChanges_namesBelow target.arch)
    (RuleTable.namesBelow_default (Arch.orderly_of_shipped harch).sp_lt) hrow
  exact ⟨hcolumn ▸ hchecked.returnAddress, hinitial, hcurrent⟩

/-- A CIE whose program puts the CFA above `esp`, and an FDE whose program keeps
`ebx` in `ebp` and then takes the CFA from there too. -/
def framedFunction : List UInt64 :=
  [0x0c, 0, 0x78010001, 0x04040c08,
    0x14, 0x14, 0x3000, 0x10, 0x44050309, 0x080e050d]

def framedFunctionTarget : Target :=
  imageTarget framedFunction

def framedFde : Fde where
  address := 0x1010
  cie :=
    { address := 0x1000
      version := 1
      augmentation := .none
      codeAlign := 1
      dataAlign := -8
      returnAddress := 8
      program := ⟨0x100d, 0x1010⟩ }
  start := 0x3000
  stop := 0x3010
  lsda := 0
  program := ⟨0x1020, 0x1028⟩

/-- The tables behind the program of the CIE and at `0x3008`. -/
def framedTables : RuleTable × RuleTable :=
  let above : RuleTable := { RuleTable.default .x86 with cfa := .registerOffset 4 4 }
  (above, { above.withRule 3 (.inRegister 5) with cfa := .registerOffset 5 8 })

theorem framedFde_instructions :
    framedFde.cie.instructions framedFunctionTarget {} framedFde.cie.program =
        [.ok (.defCfa 4 4)] ∧
      framedFde.cie.instructions framedFunctionTarget {} framedFde.program =
        [.ok (.register 3 5), .ok (.advanceLoc .packed 4), .ok (.defCfaRegister 5),
          .ok (.defCfaOffset 8)] := by
  have hopcode (pos next : UInt64) (opcode : UInt8) (stop : UInt64)
      (h : framedFunctionTarget.readU8 pos = .ok opcode next) :
      decode framedFunctionTarget ⟨⟨0⟩, {}, stop⟩ pos =
        decodeOperands framedFunctionTarget ⟨⟨0⟩, {}, stop⟩ opcode next :=
    Action.bind_eq_of_ok h _
  have hcfa : decode framedFunctionTarget ⟨⟨0⟩, {}, 0x1010⟩ 0x100d =
      .ok (.defCfa 4 4) 0x1010 := by
    rw [hopcode 0x100d 0x100e 0x0c _ rfl]
    cbv
  have hregister : decode framedFunctionTarget ⟨⟨0⟩, {}, 0x1028⟩ 0x1020 =
      .ok (.register 3 5) 0x1023 := by
    rw [hopcode 0x1020 0x1021 0x09 _ rfl]
    cbv
  have hadvance : decode framedFunctionTarget ⟨⟨0⟩, {}, 0x1028⟩ 0x1023 =
      .ok (.advanceLoc .packed 4) 0x1024 := by cbv
  have hcfaRegister : decode framedFunctionTarget ⟨⟨0⟩, {}, 0x1028⟩ 0x1024 =
      .ok (.defCfaRegister 5) 0x1026 := by
    rw [hopcode 0x1024 0x1025 0x0d _ rfl]
    cbv
  have hcfaOffset : decode framedFunctionTarget ⟨⟨0⟩, {}, 0x1028⟩ 0x1026 =
      .ok (.defCfaOffset 8) 0x1028 := by
    rw [hopcode 0x1026 0x1027 0x0e _ rfl]
    cbv
  constructor
  · change listing framedFunctionTarget ⟨⟨0⟩, {}, 0x1010⟩ 0x100d = _
    simp [listing_eq, hcfa]
  · change listing framedFunctionTarget ⟨⟨0⟩, {}, 0x1028⟩ 0x1020 = _
    simp [listing_eq, hregister, hadvance, hcfaRegister, hcfaOffset]

theorem parseFde_wellFormed_framedFunction :
    framedFunctionTarget.arch ∈ Arch.shipped ∧
      ProgramOf framedFunctionTarget 0x1010 ⟨0x1020, 0x1028⟩ ∧
      ∃ row, (rowAt framedFunctionTarget .empty framedFde 0x3008 {}).1 = .ok row ∧
        row.initial = framedTables.1 ∧ row.current = framedTables.2 ∧ row.returnAddress < 9 ∧
        row.initial.NamesBelow 9 ∧ row.current.NamesBelow 9 := by
  have harch : framedFunctionTarget.arch ∈ Arch.shipped := by
    simp [framedFunctionTarget, imageTarget, Arch.shipped]
  have hparse : parseFde framedFunctionTarget 0x1010 .ehFrame {} = .ok framedFde := by cbv
  obtain ⟨hfirst, hown⟩ := framedFde_instructions
  have hrow : (rowAt framedFunctionTarget .empty framedFde 0x3008 {}).1 =
      .ok { Row.default .x86 8 with initial := framedTables.1, current := framedTables.2 } := by
    unfold rowAt runEntry Cie.runProgram
    rw [hfirst, hown]
    rfl
  obtain ⟨-, ⟨-, hprogram⟩, -, hrows⟩ := parseFde_wellFormed harch hparse
  obtain ⟨hcolumn, hinitialBelow, hcurrentBelow⟩ := hrows _ _ _ _ hrow
  exact ⟨harch, hprogram, _, hrow, rfl, rfl, hcolumn, hinitialBelow, hcurrentBelow⟩

end Cfi
end StackWalk
