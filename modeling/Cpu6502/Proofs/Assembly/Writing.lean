import Cpu6502.Proofs.Assembly.Soundness
import Cpu6502.Proofs.Program.Hex

/-! # Sources without labels in operands

A program is written as a source by statements whose operands are literal bytes; those of branches
are their distances. However the statements are spelled and laid out, the source assembles to the
program (`WritesProgram.assemble`).
-/

namespace Cpu6502

open Instruction

/-! ## Statements -/

/-- The words of a statement write an instruction: its mnemonic, in any case of letters, and its
operand byte, if the mode has one. -/
inductive Encoded.Written (e : Encoded) : List (List Char) → Prop where
  | implied {mnemonic : List Char}
      (spelled : mnemonic.map Char.toUpper = e.row.mnemonic.name.toList)
      (mode : e.row.mode = .implied) : Written e [mnemonic]
  | immediate {mnemonic digits : List Char}
      (spelled : mnemonic.map Char.toUpper = e.row.mnemonic.name.toList)
      (mode : e.row.mode = .immediate) (writes : Hex.Writes e.operand digits) :
      Written e [mnemonic, '#' :: '$' :: digits]
  | byte {mnemonic digits : List Char}
      (spelled : mnemonic.map Char.toUpper = e.row.mnemonic.name.toList)
      (mode : e.row.mode = .zeroPage ∨ e.row.mode = .relative)
      (writes : Hex.Writes e.operand digits) : Written e [mnemonic, '$' :: digits]

/-- Statements that follow one another write instructions that follow one another. -/
inductive WrittenInOrder : List Encoded → List (List (List Char)) → Prop where
  | nil : WrittenInOrder [] []
  | cons {e : Encoded} {program : List Encoded} {words : List (List Char)}
      {statements : List (List (List Char))} (first : e.Written words)
      (rest : WrittenInOrder program statements) :
      WrittenInOrder (e :: program) (words :: statements)

/-- The source has one statement for each instruction of the program, which writes it. Labels may
stand between them. -/
structure WritesProgram (program : List Encoded) (source : String) : Prop where
  statements : WrittenInOrder program (Line.statements (Text.lines source.toList))
  labels : ∀ text ∈ Text.lines source.toList, ∀ label ∈ (Line.ofText text).label, isIdentifier label
  distinct : ((Text.lines source.toList).filterMap Line.name?).Nodup

namespace Encoded

/-- The operand of an instruction as a literal byte. -/
def argument (e : Encoded) : Argument :=
  match e.row.mode with
  | .implied => .none
  | .immediate => .immediate e.operand
  | .zeroPage | .relative => .byte e.operand

/-- The instruction as a statement. -/
def statement (e : Encoded) : Statement :=
  ⟨e.row, e.argument⟩

end Encoded

/-- A byte calls for the mode of a row if it is one of the two that are written so. -/
theorem Instruction.mode_eq_mode_byte_iff {i : Instruction} (hi : i ∈ table) (value : UInt8) :
    i.mode = (Argument.byte value).mode i.mnemonic ↔ i.mode = .zeroPage ∨ i.mode = .relative := by
  have hrelative := mode_eq_relative_iff hi
  unfold Argument.mode
  dsimp only
  by_cases hbranch : .relative ∈ modesOf i.mnemonic
  · rw [if_pos hbranch, hrelative.2 hbranch]
    exact ⟨Or.inr, fun _ => rfl⟩
  · rw [if_neg hbranch]
    exact (or_iff_left (mt hrelative.1 hbranch)).symm

theorem Encoded.wellFormed_statement (e : Encoded) : e.statement.WellFormed := by
  have hbyte := Instruction.mode_eq_mode_byte_iff e.mem_table e.operand
  refine ⟨e.mem_table, ?_⟩
  show e.row.mode = e.argument.mode e.row.mnemonic
  unfold argument
  cases hmode : e.row.mode with
  | implied | immediate => rfl
  | zeroPage =>
    rw [hmode] at hbyte
    exact hbyte.2 (.inl rfl)
  | relative =>
    rw [hmode] at hbyte
    exact hbyte.2 (.inr rfl)

/-- The encoding of the statement does not depend on its place. -/
theorem Encoded.encode_statement (e : Encoded) (layout : Layout) (line offset : Nat) :
    layout.encode ⟨line, offset, e.statement⟩ = .ok e.bytes := by
  unfold Layout.encode statement argument bytes
  cases e.row.mode with
  | implied => rfl
  | immediate | zeroPage | relative => rfl

theorem Mnemonic.map_toUpper_name (m : Mnemonic) :
    m.name.toList.map Char.toUpper = m.name.toList := by
  cases m <;> decide

/-- A mnemonic is found in any case of letters. -/
theorem Mnemonic.named?_of_spelled {m : Mnemonic} {mnemonic : List Char}
    (h : mnemonic.map Char.toUpper = m.name.toList) :
    Mnemonic.named? (String.ofList mnemonic) = some m := by
  have hname := named?_name m
  unfold named? at hname ⊢
  rw [map_toUpper_name] at hname
  rw [String.toList_ofList, h, hname]

theorem Statement.ofParts_of_spelled {statement : Statement} (h : statement.WellFormed)
    {mnemonic : List Char}
    (spelled : mnemonic.map Char.toUpper = statement.instruction.mnemonic.name.toList) :
    ofParts mnemonic statement.argument = .ok statement := by
  have hnamed := Mnemonic.named?_of_spelled spelled
  -- a row is found by the mnemonic that its name is read as
  have hfind := find?_name h.mem_table
  unfold find? at hfind
  rw [Mnemonic.named?_name, ← hnamed, h.mode] at hfind
  unfold ofParts
  dsimp only
  rw [hnamed]
  dsimp only
  unfold find?
  rw [hfind]

/-- The operand words that say an argument are read as it. -/
theorem Argument.Written.read {argument : Argument} {operand : List (List Char)}
    (h : argument.Written operand) :
    argument = .none ∧ operand = [] ∨
      ∃ word, operand = [word] ∧ ofWord? word = some argument := by
  cases h with
  | none => exact .inl ⟨rfl, rfl⟩
  | immediate read => exact .inr ⟨_, rfl, congrArg (Option.map Argument.immediate) read⟩
  | byte read => exact .inr ⟨_, rfl, congrArg (Option.map Argument.byte) read⟩
  | label identifier => exact .inr ⟨_, rfl, ofWord?_of_isIdentifier identifier⟩

/-- A statement is read from its mnemonic and the words that say its argument. -/
theorem Statement.ofBody_of_written {statement : Statement} (h : statement.WellFormed)
    {body mnemonic : List Char} {operand : List (List Char)}
    (hwords : Text.words body = mnemonic :: operand)
    (spelled : mnemonic.map Char.toUpper = statement.instruction.mnemonic.name.toList)
    (hwritten : statement.argument.Written operand) : ofBody body = .ok (some statement) := by
  have hparts := ofParts_of_spelled h spelled
  unfold ofBody
  rw [hwords]
  rcases hwritten.read with ⟨hnone, rfl⟩ | ⟨word, rfl, hword⟩
  · rw [hnone] at hparts
    dsimp only
    rw [hparts]
    rfl
  · dsimp only
    rw [hword]
    dsimp only
    rw [hparts]
    rfl

theorem Statement.ofBody_of_words_nil {body : List Char} (h : Text.words body = []) :
    ofBody body = .ok none := by
  unfold ofBody
  rw [h]

/-- A statement that writes an instruction is read as its statement. -/
theorem Encoded.Written.ofBody {e : Encoded} {body : List Char} (h : e.Written (Text.words body)) :
    Statement.ofBody body = .ok (some e.statement) := by
  suffices hparts : ∃ mnemonic operand, Text.words body = mnemonic :: operand ∧
      mnemonic.map Char.toUpper = e.row.mnemonic.name.toList ∧ e.argument.Written operand by
    obtain ⟨mnemonic, operand, hwords, spelled, hwritten⟩ := hparts
    exact Statement.ofBody_of_written e.wellFormed_statement hwords spelled hwritten
  unfold argument
  generalize Text.words body = words at h
  cases h with
  | implied spelled mode =>
    rw [mode]
    exact ⟨_, _, rfl, spelled, .none⟩
  | immediate spelled mode writes =>
    rw [mode]
    exact ⟨_, _, rfl, spelled, .immediate writes.byte?⟩
  | byte spelled mode writes =>
    rcases mode with mode | mode
    · rw [mode]
      exact ⟨_, _, rfl, spelled, .byte writes.byte?⟩
    · rw [mode]
      exact ⟨_, _, rfl, spelled, .byte writes.byte?⟩

/-! ## Lines -/

/-- Lines whose statements write instructions are laid out and encoded as these. -/
theorem WrittenInOrder.encode {program : List Encoded} {lines : List (List Char)}
    (h : WrittenInOrder program (Line.statements lines))
    (labels : ∀ text ∈ lines, ∀ label ∈ (Line.ofText text).label, isIdentifier label)
    (layout : Layout) (number start : Nat) :
    (∀ text ∈ lines, Line.Readable text) ∧
      (Layout.placements number start lines).map layout.encode =
        (program.map Encoded.bytes).map .ok := by
  induction lines generalizing program number start with
  | nil =>
    cases h
    exact ⟨fun _ hmem => absurd hmem List.not_mem_nil, rfl⟩
  | cons text rest ih =>
    obtain ⟨hlabel, hlabels⟩ := List.forall_mem_cons.1 labels
    by_cases hwords : Line.words text = []
    · -- a line without a statement has no bytes
      rw [Line.statements_cons_of_nil hwords] at h
      obtain ⟨hreadable, -, hstatement⟩ := Line.readable_of_parts rfl hlabel
        (Statement.ofBody_of_words_nil hwords)
      obtain ⟨hrest, hencode⟩ := ih h hlabels (number + 1) (start + Line.size text)
      rw [Layout.placements, hstatement]
      refine ⟨List.forall_mem_cons.2 ⟨hreadable, hrest⟩, ?_⟩
      rw [Option.map_none, Option.toList_none, List.nil_append, hencode]
    · rw [Line.statements_cons_of_ne_nil hwords] at h
      cases h with
      | cons first written =>
        obtain ⟨hreadable, -, hstatement⟩ := Line.readable_of_parts rfl hlabel first.ofBody
        obtain ⟨hrest, hencode⟩ := ih written hlabels (number + 1) (start + Line.size text)
        refine ⟨List.forall_mem_cons.2 ⟨hreadable, hrest⟩, ?_⟩
        rw [Layout.placements, hstatement, List.map_append, hencode]
        simp [Encoded.encode_statement]

/-- A source that writes a program assembles to it. -/
theorem WritesProgram.assemble {program : List Encoded} {source : String}
    (h : WritesProgram program source) :
    assemble source = .ok (program.flatMap Encoded.bytes) := by
  obtain ⟨hreadable, hencode⟩ := h.statements.encode h.labels
    (Layout.read (Text.lines source.toList)) 1 0
  rw [List.flatMap_def]
  exact assemble_eq_ok_iff.2 ⟨program.map Encoded.bytes, hreadable, h.distinct, hencode, rfl⟩

end Cpu6502
