import Cpu6502.Proofs.Assembly.Layout
import Cpu6502.Proofs.Disassembly

/-! # Assembling what a listing shows

The texts of a listing are assembly syntax except for two kinds of them. A branch is shown with an
address of four digits, which is no operand, and a byte of data with a word that is no mnemonic. The
assembler stops at the first of these texts. If there is none, it makes the listed bytes again.

So a listing of any code is assembled to no other bytes than its own (`assemble_listedSource`).
-/

namespace Cpu6502

open Instruction

/-! ## Listings as sources -/

/-- The bytes of the item at an address. -/
def itemBytes (code : Array UInt8) (pc : UInt16) : List UInt8 :=
  (List.range (Item.decode code pc).length).map fun i => byteAt code (pc + UInt16.ofNat i)

/-- The text of the item at an address. -/
def itemText (code : Array UInt8) (pc : UInt16) : String :=
  (Item.decode code pc).text pc

/-- The texts of a listing, joined with line feeds. -/
def listedSource (code : Array UInt8) (start : UInt16) (length : Nat) : String :=
  "\n".intercalate ((itemStarts code start length).toList.map (itemText code))

/-- What the assembler has against the text of an item: it knows no directive for data, and takes
no address for the operand of a branch. -/
def Item.defect? (pc : UInt16) : Item → Option Defect
  | data _ => some (.unknownMnemonic ".byte")
  | instruction row operand =>
    if row.mnemonic = .bcc ∨ row.mnemonic = .bcs then
      some (.badOperand ((instruction row operand).text pc))
    else none

/-- The first defect among the items at some addresses, which stand one to a line, where the first
line has the given number. -/
def firstDefect (code : Array UInt8) (line : Nat) : List UInt16 → Option AssemblyError
  | [] => none
  | pc :: rest =>
    match (Item.decode code pc).defect? pc with
    | some defect => some ⟨line, defect⟩
    | none => firstDefect code (line + 1) rest

/-! ## Texts as lines -/

theorem isWord_byteDirective : IsWord ".byte".toList := by
  refine ⟨by decide, ?_⟩
  have hplain : ".byte".toList.all isPlain := by decide
  exact List.all_eq_true.1 hplain

theorem isWord_dollar (width value : Nat) : IsWord ('$' :: Hex.digits width value) := by
  refine ⟨List.cons_ne_nil _ _, ?_⟩
  intro c hc
  rcases List.mem_cons.1 hc with rfl | hc
  · decide
  · exact isPlain_of_mem_digits hc

namespace Item

variable (pc : UInt16)

theorem toList_text_data (value : UInt8) :
    ((data value).text pc).toList = ".byte".toList ++ ' ' :: '$' :: Hex.digits 2 value.toNat := by
  simp [text, Hex.byte]

theorem toList_text_relative {row : Instruction} (hmode : row.mode = .relative) (operand : UInt8) :
    ∃ target : UInt16, ((instruction row operand).text pc).toList =
      row.mnemonic.name.toList ++ ' ' :: '$' :: Hex.digits 4 target.toNat := by
  refine ⟨branchTarget (pc + UInt16.ofNat row.size) operand.toInt8, ?_⟩
  simp [text, hmode, Hex.word]

/-- The statement that the text of an instruction is read as, unless it is a branch. -/
def statement (row : Instruction) (operand : UInt8) : Statement where
  instruction := row
  argument :=
    match row.mode with
    | .implied | .relative => .none
    | .immediate => .immediate operand
    | .zeroPage => .byte operand

theorem writable_statement (row : Instruction) (operand : UInt8) :
    (statement row operand).argument.Writable := by
  intro name hname
  unfold statement at hname
  cases hmode : row.mode with
  | implied | immediate | zeroPage | relative => simp [hmode] at hname

theorem wellFormed_statement {row : Instruction} (hrow : row ∈ table) (hmode : row.mode ≠ .relative)
    (operand : UInt8) : (statement row operand).WellFormed := by
  have hother := mt (mode_eq_relative_iff hrow).2 hmode
  refine ⟨hrow, ?_⟩
  unfold statement
  dsimp only
  cases hrowMode : row.mode with
  | implied | immediate => rfl
  | zeroPage => exact (if_neg hother).symm
  | relative => exact absurd hrowMode hmode

theorem toList_text_instruction {row : Instruction} (hmode : row.mode ≠ .relative)
    (operand : UInt8) :
    ((instruction row operand).text pc).toList = (statement row operand).text := by
  unfold text statement Statement.text
  cases hrowMode : row.mode with
  | implied => simp [hrowMode]
  | immediate | zeroPage => simp [hrowMode, Argument.word, Hex.byte]
  | relative => exact absurd hrowMode hmode

/-- The text of an item has the form of a statement. -/
theorem isBody_text (item : Item) : IsBody (item.text pc).toList := by
  cases item with
  | data value =>
    rw [toList_text_data]
    exact isWord_byteDirective.isBody_append (isWord_dollar 2 _)
  | instruction row operand =>
    by_cases hmode : row.mode = .relative
    · rcases toList_text_relative pc hmode operand with ⟨target, htext⟩
      rw [htext]
      exact row.mnemonic.isWord_name.isBody_append (isWord_dollar 4 _)
    · rw [toList_text_instruction pc hmode]
      exact Statement.isBody_text (writable_statement row operand)

end Item

/-- A listed source has one line for each item. -/
theorem lines_listedSource (code : Array UInt8) (start : UInt16) (length : Nat) :
    Text.lines (listedSource code start length).toList =
      (itemStarts code start length).toList.map fun pc => (itemText code pc).toList := by
  unfold listedSource
  rw [String.toList_intercalate, List.map_map]
  apply Text.lines_intercalate
  intro line hline
  rcases List.mem_map.1 hline with ⟨pc, -, rfl⟩
  exact ((Item.decode code pc).isBody_text pc).isLine

/-! ## Texts that are read back -/

section
variable {code : Array UInt8} {pc : UInt16} {layout : Layout} {number offset : Nat}

/-- An item that the assembler has nothing against is an instruction other than a branch. -/
theorem Item.decode_of_defect?_eq_none (h : (Item.decode code pc).defect? pc = none) :
    ∃ row, Item.decode code pc = .instruction row (byteAt code (pc + 1)) ∧ row ∈ table ∧
      row.opcode = byteAt code pc ∧ row.mode ≠ .relative := by
  unfold Item.decode at h ⊢
  cases hrow : decode? (byteAt code pc) with
  | none =>
    rw [hrow] at h
    cases h
  | some row =>
    rw [hrow] at h
    rcases decode?_eq_some hrow with ⟨hmem, hopcode⟩
    refine ⟨row, rfl, hmem, hopcode, ?_⟩
    intro hmode
    have hbranch := (relative_mem_modesOf_iff row.mnemonic).1 ((mode_eq_relative_iff hmem).1 hmode)
    unfold Item.defect? at h
    dsimp only at h
    rw [if_pos hbranch] at h
    cases h

/-- The statement of an instruction makes the bytes that the instruction was read from. -/
theorem encode_statement {row : Instruction}
    (hdecode : Item.decode code pc = .instruction row (byteAt code (pc + 1)))
    (hopcode : row.opcode = byteAt code pc) (hmode : row.mode ≠ .relative) :
    layout.encode ⟨number, offset, Item.statement row (byteAt code (pc + 1))⟩ =
      .ok (itemBytes code pc) := by
  have hbytes : itemBytes code pc = (List.range row.size).map fun i =>
      byteAt code (pc + UInt16.ofNat i) := by
    unfold itemBytes
    rw [hdecode]
    rfl
  have hone : UInt16.ofNat 1 = 1 := rfl
  rw [hbytes]
  unfold Layout.encode Item.statement Instruction.size
  cases hrowMode : row.mode with
  | implied => simp [AddressingMode.operandLength, hopcode]
  | immediate | zeroPage =>
    simp [AddressingMode.operandLength, List.range_succ, hopcode, hone]
  | relative => exact absurd hrowMode hmode

/-- An item without a defect is shown as a line that makes its bytes, whatever the labels are. -/
theorem line_itemText (h : (Item.decode code pc).defect? pc = none) :
    Line.Readable (itemText code pc).toList ∧ Line.name? (itemText code pc).toList = none ∧
      ∃ statement, Line.statement? (itemText code pc).toList = some statement ∧
        ∀ (layout : Layout) (number offset : Nat),
          layout.encode ⟨number, offset, statement⟩ = .ok (itemBytes code pc) := by
  rcases Item.decode_of_defect?_eq_none h with ⟨row, hdecode, hrow, hopcode, hmode⟩
  have hwritable := Item.writable_statement row (byteAt code (pc + 1))
  have hbody := Statement.ofBody_text (Item.wellFormed_statement hrow hmode _) hwritable
  have htext : (itemText code pc).toList =
      (Item.statement row (byteAt code (pc + 1))).text := by
    unfold itemText
    rw [hdecode, Item.toList_text_instruction pc hmode]
  have hline := Line.ofText_body (Statement.isBody_text hwritable)
  rw [htext]
  rcases Line.readable_of_parts hline nofun hbody with ⟨hreadable, hname, hstatement⟩
  exact ⟨hreadable, hname, _, hstatement, fun _ _ _ => encode_statement hdecode hopcode hmode⟩

/-- Items without defects are shown as lines that make their bytes. -/
theorem lines_itemText {starts : List UInt16}
    (h : ∀ pc ∈ starts, (Item.decode code pc).defect? pc = none) :
    let lines := starts.map fun pc => (itemText code pc).toList
    (∀ text ∈ lines, Line.Readable text) ∧ lines.filterMap Line.name? = [] ∧
      ∀ (layout : Layout) (number offset : Nat),
        (Layout.placements number offset lines).map layout.encode =
          (starts.map (itemBytes code)).map .ok := by
  induction starts with
  | nil => exact ⟨nofun, rfl, fun _ _ _ => rfl⟩
  | cons pc rest ih =>
    rcases List.forall_mem_cons.1 h with ⟨hfirst, hrest⟩
    rcases line_itemText hfirst with ⟨hreadable, hname, statement, hstatement, hencode⟩
    rcases ih hrest with ⟨hreadables, hnames, hencodes⟩
    refine ⟨List.forall_mem_cons.2 ⟨hreadable, hreadables⟩, ?_, ?_⟩
    · rw [List.map_cons, List.filterMap_cons_none hname, hnames]
    · intro layout number offset
      rw [List.map_cons, Layout.placements, hstatement, List.map_append, hencodes]
      simp [hencode]

end

/-! ## Texts that are refused -/

/-- There is no directive for data. -/
theorem ofBody_data (pc : UInt16) (value : UInt8) :
    Statement.ofBody ((Item.data value).text pc).toList = .error (.unknownMnemonic ".byte") := by
  have hword : Argument.ofWord? ('$' :: Hex.digits 2 value.toNat) = some (.byte value) :=
    congrArg (Option.map Argument.byte) (Hex.byte?_digits value)
  have hparts : Statement.ofParts ".byte".toList (.byte value) =
      .error (.unknownMnemonic ".byte") := rfl
  rw [Item.toList_text_data]
  unfold Statement.ofBody
  rw [isWord_byteDirective.words_append (isWord_dollar 2 _)]
  dsimp only
  rw [hword]
  dsimp only
  rw [hparts]
  rfl

/-- An address has too many digits for an operand. -/
theorem ofBody_relative (pc : UInt16) {row : Instruction} (hmode : row.mode = .relative)
    (operand : UInt8) :
    Statement.ofBody ((Item.instruction row operand).text pc).toList =
      .error (.badOperand ((Item.instruction row operand).text pc)) := by
  rcases Item.toList_text_relative pc hmode operand with ⟨target, htext⟩
  have hword : Argument.ofWord? ('$' :: Hex.digits 4 target.toNat) = none := rfl
  unfold Statement.ofBody
  rw [htext, row.mnemonic.isWord_name.words_append (isWord_dollar 4 _)]
  dsimp only
  rw [hword, ← htext, String.ofList_toList]

/-- The line of an item with a defect is refused, whatever has been laid out before. -/
theorem addLine_itemText {code : Array UInt8} {pc : UInt16} {defect : Defect}
    (h : (Item.decode code pc).defect? pc = some defect) (layout : Layout) (number : Nat) :
    layout.addLine number (itemText code pc).toList = .error defect := by
  have hbody : Statement.ofBody (itemText code pc).toList = .error defect := by
    unfold itemText
    unfold Item.decode at h ⊢
    cases hrow : decode? (byteAt code pc) with
    | none =>
      rw [hrow] at h
      cases h
      exact ofBody_data pc _
    | some row =>
      rw [hrow] at h
      rcases Option.ite_none_right_eq_some.1 h with ⟨hbranch, hdefect⟩
      cases hdefect
      have hmode := (mode_eq_relative_iff (decode?_eq_some hrow).1).2
        ((relative_mem_modesOf_iff row.mnemonic).2 hbranch)
      exact ofBody_relative pc hmode _
  have hline : Line.ofText (itemText code pc).toList = ⟨none, (itemText code pc).toList⟩ :=
    Line.ofText_body ((Item.decode code pc).isBody_text pc)
  unfold Layout.addLine
  rw [hline]
  dsimp only [Layout.define]
  rw [hbody]
  rfl

/-! ## Listings that are assembled -/

section
variable {code : Array UInt8} {starts : List UInt16} {line : Nat}

theorem forall_defect?_of_firstDefect_eq_none (h : firstDefect code line starts = none) :
    ∀ pc ∈ starts, (Item.decode code pc).defect? pc = none := by
  induction starts generalizing line with
  | nil => exact nofun
  | cons pc rest ih =>
    rw [firstDefect] at h
    split at h
    · cases h
    · rename_i hfirst
      exact List.forall_mem_cons.2 ⟨hfirst, ih h⟩

theorem exists_append_of_firstDefect_eq_some {e : AssemblyError}
    (h : firstDefect code line starts = some e) :
    ∃ before pc after defect, starts = before ++ pc :: after ∧
      (∀ pc ∈ before, (Item.decode code pc).defect? pc = none) ∧
      (Item.decode code pc).defect? pc = some defect ∧ e = ⟨line + before.length, defect⟩ := by
  induction starts generalizing line with
  | nil => cases h
  | cons pc rest ih =>
    rw [firstDefect] at h
    split at h
    · rename_i defect hdefect
      cases h
      exact ⟨[], pc, rest, defect, rfl, nofun, hdefect, rfl⟩
    · rename_i hfirst
      rcases ih h with ⟨before, pc', after, defect, rfl, hbefore, hdefect, rfl⟩
      refine ⟨pc :: before, pc', after, defect, rfl, List.forall_mem_cons.2 ⟨hfirst, hbefore⟩,
        hdefect, ?_⟩
      rw [List.length_cons, Nat.add_assoc, Nat.add_comm 1]

variable {start : UInt16} {length : Nat}

theorem assemble_of_forall_defect?
    (h : ∀ pc ∈ (itemStarts code start length).toList, (Item.decode code pc).defect? pc = none) :
    assemble (listedSource code start length) =
      .ok ((itemStarts code start length).toList.flatMap (itemBytes code)) := by
  rcases lines_itemText h with ⟨hreadable, hnames, hencode⟩
  rw [← lines_listedSource] at hreadable hnames hencode
  refine assemble_eq_ok_iff.2 ⟨_, hreadable, ?_, hencode _ _ _, List.flatMap_def⟩
  rw [hnames]
  exact List.nodup_nil

theorem assemble_of_firstDefect {e : AssemblyError}
    (h : firstDefect code 1 (itemStarts code start length).toList = some e) :
    assemble (listedSource code start length) = .error e := by
  rcases exists_append_of_firstDefect_eq_some h with
    ⟨before, pc, after, defect, hstarts, hbefore, hpc, rfl⟩
  rcases lines_itemText hbefore with ⟨hreadable, hnames, -⟩
  have herror := Layout.ofLines_eq_error (after.map fun pc => (itemText code pc).toList) hreadable
    (by rw [hnames]; exact List.nodup_nil) (addLine_itemText hpc _ _)
  apply assemble_eq_error_of_ofLines
  rw [lines_listedSource, hstarts, List.map_append, List.map_cons, herror, List.length_map,
    Nat.add_comm]

end

/-- A listing of any code is assembled to the listed bytes, unless it shows data or a branch: then
the first of these is the error. -/
theorem assemble_listedSource (code : Array UInt8) (start : UInt16) (length : Nat) :
    let starts := (itemStarts code start length).toList
    let source := listedSource code start length
    (assemble source =
        match firstDefect code 1 starts with
        | none => .ok (starts.flatMap (itemBytes code))
        | some e => .error e) ∧
      ∀ bytes, assemble source = .ok bytes → bytes = starts.flatMap (itemBytes code) := by
  dsimp only
  cases hdefect : firstDefect code 1 (itemStarts code start length).toList with
  | none =>
    rw [assemble_of_forall_defect? (forall_defect?_of_firstDefect_eq_none hdefect)]
    refine ⟨rfl, ?_⟩
    intro bytes hbytes
    exact (Except.ok.inj hbytes).symm
  | some e =>
    rw [assemble_of_firstDefect hdefect]
    refine ⟨rfl, ?_⟩
    intro bytes hbytes
    cases hbytes

/-- The second line is the first one that is refused. -/
example : assemble (listedSource #[0xA9, 0x05, 0x90, 0xFC, 0xFF] 0 5) =
    .error ⟨2, .badOperand "BCC $0000"⟩ := by rfl

end Cpu6502
