import Cpu6502.Proofs.Assembly.Soundness

/-! # The defects of a line

A line is looked at on its own, knowing only the labels that the lines before it define. It may have
several defects (`Line.Has`), which are looked for in a fixed order: in its label, in its operand,
and in its mnemonic. Laying out the line fails with the first of them (`Line.reported_of_addLine`),
and a line that has none is laid out (`Line.Readable.not_has`).
-/

namespace Cpu6502

open Instruction

/-- Only one number is the first with a property. -/
theorem first_unique {p : Nat → Prop} {i j : Nat} (hi : p i) (hfirst : ∀ k < i, ¬p k) (hj : p j)
    (hfirst' : ∀ k < j, ¬p k) : i = j := by
  rcases Nat.lt_trichotomy i j with hlt | heq | hgt
  · exact absurd hi (hfirst' i hlt)
  · exact heq
  · exact absurd hj (hfirst j hgt)

/-! ## What is wrong with a line -/

namespace Line

/-- The line has a defect of its own if the labels in `taken` are defined before it. A line may have
several defects; the ranks say in which order they are looked for. -/
inductive Has (taken : List String) (text : List Char) : Nat → Defect → Prop where
  /-- What stands before the first colon is no identifier. -/
  | badLabel {label : List Char} (label_eq : (ofText text).label = some label)
      (not_identifier : ¬isIdentifier label) : Has taken text 0 (.badLabel (String.ofList label))
  | duplicateLabel {name : String} (name_eq : name? text = some name) (is_taken : name ∈ taken) :
      Has taken text 1 (.duplicateLabel name)
  /-- The second word is no operand, and the whole statement is shown. -/
  | badOperand {mnemonic operand : List Char} {rest : List (List Char)}
      (words_eq : words text = mnemonic :: operand :: rest)
      (malformed : ∀ argument : Argument, ¬argument.Written [operand]) :
      Has taken text 2 (.badOperand (String.ofList (ofText text).body))
  /-- There is a third word. -/
  | extraWord {mnemonic operand extra : List Char} {rest : List (List Char)}
      (words_eq : words text = mnemonic :: operand :: extra :: rest) :
      Has taken text 3 (.badOperand (String.ofList extra))
  /-- No row is spelled like the first word. -/
  | unknownMnemonic {mnemonic : List Char} {rest : List (List Char)}
      (words_eq : words text = mnemonic :: rest)
      (unknown : ∀ row ∈ table, row.mnemonic.name.toList ≠ mnemonic.map Char.toUpper) :
      Has taken text 4 (.unknownMnemonic (String.ofList mnemonic))
  /-- No row of the mnemonic has the mode that the second word, or its absence, calls for. -/
  | unsupportedMode {mnemonic : List Char} {rest : List (List Char)} {m : Mnemonic}
      {argument : Argument} (words_eq : words text = mnemonic :: rest)
      (spelled : m.name.toList = mnemonic.map Char.toUpper)
      (written : argument.Written (rest.take 1))
      (unsupported : ∀ row ∈ table, row.mnemonic = m → row.mode ≠ argument.mode m) :
      Has taken text 5 (.unsupportedMode m (argument.mode m))

/-- The defect of the lowest rank that the line has. -/
def Reported (taken : List String) (text : List Char) (defect : Defect) : Prop :=
  ∃ rank, Has taken text rank defect ∧ ∀ lower < rank, ∀ other, ¬Has taken text lower other

end Line

/-! ## Operands, mnemonics and rows that are not there -/

theorem Argument.written_iff {argument : Argument} {word : List Char} :
    argument.Written [word] ↔ ofWord? word = some argument := by
  constructor
  · intro h
    cases h with
    | immediate read => exact congrArg (Option.map immediate) read
    | byte read => exact congrArg (Option.map byte) read
    | label identifier => exact ofWord?_of_isIdentifier identifier
  · exact written_of_ofWord?

theorem Argument.Written.unique {argument argument' : Argument} {operand : List (List Char)}
    (h : argument.Written operand) (h' : argument'.Written operand) : argument = argument' := by
  match operand, h, h' with
  | [], .none, .none => rfl
  | [word], h, h' =>
    have hread := written_iff.1 h
    rw [written_iff.1 h'] at hread
    exact (Option.some.inj hread).symm

/-- There is one operand word at most. -/
theorem Argument.Written.take_one {argument : Argument} {operand : List (List Char)}
    (h : argument.Written operand) : operand.take 1 = operand := by
  cases h with
  | none => rfl
  | immediate read | byte read | label identifier => rfl

/-- A word that is followed by others is an operand only if there are none. -/
theorem Argument.Written.of_cons {argument : Argument} {operand : List Char}
    {rest : List (List Char)} (h : argument.Written (operand :: rest)) :
    rest = [] ∧ argument.Written [operand] := by
  cases h with
  | immediate read => exact ⟨rfl, .immediate read⟩
  | byte read => exact ⟨rfl, .byte read⟩
  | label identifier => exact ⟨rfl, .label identifier⟩

theorem Mnemonic.exists_row (m : Mnemonic) : ∃ row ∈ table, row.mnemonic = m := by
  cases m <;> decide

theorem Mnemonic.name_injective {m m' : Mnemonic} (h : m.name.toList = m'.name.toList) :
    m = m' := by
  have hname := named?_name m
  rw [String.toList_inj.1 h, named?_name m'] at hname
  exact (Option.some.inj hname).symm

namespace Statement

variable {mnemonic : List Char} {argument : Argument} {defect : Defect}

/-- The parts of a statement do not fit if the mnemonic is unknown or lacks the mode. -/
theorem ofParts_eq_error (h : ofParts mnemonic argument = .error defect) :
    (defect = .unknownMnemonic (String.ofList mnemonic) ∧
        ∀ row ∈ table, row.mnemonic.name.toList ≠ mnemonic.map Char.toUpper) ∨
      ∃ m : Mnemonic, defect = .unsupportedMode m (argument.mode m) ∧
        m.name.toList = mnemonic.map Char.toUpper ∧
        ∀ row ∈ table, row.mnemonic = m → row.mode ≠ argument.mode m := by
  unfold ofParts at h
  dsimp only at h
  split at h
  · rename_i hunknown
    cases h
    refine Or.inl ⟨rfl, ?_⟩
    intro row _ hspelled
    have hall := List.find?_eq_none.1 hunknown row.mnemonic (by cases row.mnemonic <;> decide)
    rw [decide_eq_true_eq, String.toList_ofList] at hall
    exact hall hspelled
  · rename_i m hm
    have hspelled := Mnemonic.name_of_named? hm
    rw [String.toList_ofList] at hspelled
    split at h
    · rename_i hfind
      cases h
      refine Or.inr ⟨m, rfl, hspelled, ?_⟩
      intro row hrow hmnemonic hmode
      unfold find? at hfind
      rw [hm, Option.bind_eq_bind, Option.bind_some] at hfind
      have hnone := List.find?_eq_none.1 hfind row hrow
      simp [hmnemonic, hmode] at hnone
    · cases h

/-- A body without a statement that could be read. -/
theorem ofBody_eq_error {body : List Char} (h : ofBody body = .error defect) :
    ∃ mnemonic rest, Text.words body = mnemonic :: rest ∧
      ((∃ operand more, rest = operand :: more ∧ defect = .badOperand (String.ofList body) ∧
          ∀ argument : Argument, ¬argument.Written [operand]) ∨
        (∃ operand extra more argument, rest = operand :: extra :: more ∧
          defect = .badOperand (String.ofList extra) ∧ Argument.Written argument [operand]) ∨
        ∃ argument, Argument.Written argument rest ∧
          ofParts mnemonic argument = .error defect) := by
  have hmap : ∀ {mnemonic argument}, (ofParts mnemonic argument).map some = .error defect →
      ofParts mnemonic argument = .error defect := by
    intro mnemonic argument hmap
    cases hresult : ofParts mnemonic argument with
    | error other =>
      rw [hresult] at hmap
      cases hmap
      rfl
    | ok statement =>
      rw [hresult] at hmap
      cases hmap
  unfold ofBody at h
  split at h
  · cases h
  · rename_i mnemonic hwords
    exact ⟨mnemonic, [], hwords, Or.inr (Or.inr ⟨.none, .none, hmap h⟩)⟩
  · rename_i mnemonic operand more hwords
    refine ⟨mnemonic, operand :: more, hwords, ?_⟩
    cases hword : Argument.ofWord? operand with
    | none =>
      rw [hword] at h
      cases h
      refine Or.inl ⟨operand, more, rfl, rfl, ?_⟩
      intro argument hwritten
      rw [Argument.written_iff, hword] at hwritten
      cases hwritten
    | some argument =>
      have hwritten := Argument.written_of_ofWord? hword
      rw [hword] at h
      cases more with
      | nil => exact Or.inr (Or.inr ⟨argument, hwritten, hmap h⟩)
      | cons extra others =>
        cases h
        exact Or.inr (Or.inl ⟨operand, extra, others, argument, rfl, rfl, hwritten⟩)

end Statement

/-! ## Lines without a defect, and the defect of a line -/

namespace Line

variable {taken : List String} {text : List Char} {rank : Nat} {defect defect' : Defect}

/-- The words of a line that can be read are those of its statement. -/
theorem Readable.exists_parts (h : Readable text) {mnemonic : List Char} {rest : List (List Char)}
    (hwords : words text = mnemonic :: rest) :
    ∃ statement, statement? text = some statement ∧ statement.argument.Written rest ∧
      Statement.ofParts mnemonic statement.argument = .ok statement := by
  have hbody := h.body
  cases hstatement : statement? text with
  | none =>
    rw [hstatement] at hbody
    have hnil := Statement.words_of_ofBody_none hbody
    rw [words, hnil] at hwords
    cases hwords
  | some statement =>
    rw [hstatement] at hbody
    obtain ⟨mnemonic', rest', argument, hwords', hwritten, hparts⟩ :=
      Statement.exists_parts_of_ofBody hbody
    obtain ⟨rfl, -, -⟩ := Statement.of_ofParts hparts
    rw [words, hwords'] at hwords
    cases hwords
    exact ⟨statement, rfl, hwritten, hparts⟩

/-- A line that can be read and whose label is new has no defect. -/
theorem Readable.not_has (h : Readable text) (hfresh : ∀ name ∈ name? text, name ∉ taken) :
    ¬Has taken text rank defect := by
  intro hdefect
  cases hdefect with
  | badLabel label_eq not_identifier => exact not_identifier (h.label _ label_eq)
  | duplicateLabel name_eq is_taken => exact hfresh _ name_eq is_taken
  | badOperand words_eq malformed =>
    obtain ⟨statement, -, hwritten, -⟩ := h.exists_parts words_eq
    exact malformed statement.argument hwritten.of_cons.2
  | extraWord words_eq =>
    obtain ⟨statement, -, hwritten, -⟩ := h.exists_parts words_eq
    exact absurd hwritten.of_cons.1 (List.cons_ne_nil _ _)
  | unknownMnemonic words_eq unknown =>
    obtain ⟨statement, -, -, hparts⟩ := h.exists_parts words_eq
    obtain ⟨-, hformed, hspelled⟩ := Statement.of_ofParts hparts
    exact unknown statement.instruction hformed.mem_table hspelled
  | unsupportedMode words_eq spelled written unsupported =>
    obtain ⟨statement, -, hwritten, hparts⟩ := h.exists_parts words_eq
    obtain ⟨-, hformed, hspelled⟩ := Statement.of_ofParts hparts
    have hmnemonic := Mnemonic.name_injective (hspelled.trans spelled.symm)
    rw [hwritten.take_one] at written
    cases hwritten.unique written
    exact unsupported statement.instruction hformed.mem_table hmnemonic (hmnemonic ▸ hformed.mode)

theorem Has.unique (h : Has taken text rank defect) (h' : Has taken text rank defect') :
    defect = defect' := by
  cases h with
  | badLabel label_eq =>
    cases h' with
    | badLabel label_eq' =>
      rw [label_eq] at label_eq'
      cases label_eq'
      rfl
  | duplicateLabel name_eq =>
    cases h' with
    | duplicateLabel name_eq' =>
      rw [name_eq] at name_eq'
      cases name_eq'
      rfl
  | badOperand words_eq =>
    cases h' with
    | badOperand words_eq' => rfl
  | extraWord words_eq =>
    cases h' with
    | extraWord words_eq' =>
      rw [words_eq] at words_eq'
      cases words_eq'
      rfl
  | unknownMnemonic words_eq =>
    cases h' with
    | unknownMnemonic words_eq' =>
      rw [words_eq] at words_eq'
      cases words_eq'
      rfl
  | unsupportedMode words_eq spelled written =>
    cases h' with
    | unsupportedMode words_eq' spelled' written' =>
      rw [words_eq] at words_eq'
      cases words_eq'
      cases Mnemonic.name_injective (spelled.trans spelled'.symm)
      cases written.unique written'
      rfl

theorem Reported.unique (h : Reported taken text defect) (h' : Reported taken text defect') :
    defect = defect' := by
  obtain ⟨rank, hhas, hlowest⟩ := h
  obtain ⟨rank', hhas', hlowest'⟩ := h'
  have hrank : rank = rank' :=
    first_unique (p := fun r => ∃ d, Has taken text r d) ⟨defect, hhas⟩
      (fun lower hlower => not_exists.2 (hlowest lower hlower)) ⟨defect', hhas'⟩
      (fun lower hlower => not_exists.2 (hlowest' lower hlower))
  subst hrank
  exact hhas.unique hhas'

/-- Where the label is an identifier and new, no defect has a rank below two. -/
theorem two_le_of_has (hlabel : ∀ l ∈ (ofText text).label, isIdentifier l)
    (hfresh : ∀ name ∈ name? text, name ∉ taken) (h : Has taken text rank defect) : 2 ≤ rank := by
  cases h with
  | badLabel label_eq not_identifier => exact absurd (hlabel _ label_eq) not_identifier
  | duplicateLabel name_eq is_taken => exact absurd is_taken (hfresh _ name_eq)
  | badOperand | extraWord | unknownMnemonic | unsupportedMode => decide

/-- Where the statement has an operand at most, no defect has the rank two or three. -/
theorem four_le_of_has {mnemonic : List Char} {argument : Argument} {rest : List (List Char)}
    (hwords : words text = mnemonic :: rest) (hwritten : argument.Written rest)
    (h : Has taken text rank defect) (htwo : 2 ≤ rank) : 4 ≤ rank := by
  cases h with
  | badLabel | duplicateLabel => exact absurd htwo (by decide)
  | badOperand words_eq malformed =>
    rw [hwords] at words_eq
    cases words_eq
    exact absurd hwritten.of_cons.2 (malformed argument)
  | extraWord words_eq =>
    rw [hwords] at words_eq
    cases words_eq
    exact absurd hwritten.of_cons.1 (List.cons_ne_nil _ _)
  | unknownMnemonic | unsupportedMode => decide

/-- The defect of a statement is reported if nothing is wrong with the label of its line. -/
theorem reported_of_ofBody (hlabel : ∀ l ∈ (ofText text).label, isIdentifier l)
    (hfresh : ∀ name ∈ name? text, name ∉ taken)
    (h : Statement.ofBody (ofText text).body = .error defect) : Reported taken text defect := by
  have htwo : ∀ {rank other}, Has taken text rank other → 2 ≤ rank := two_le_of_has hlabel hfresh
  obtain ⟨mnemonic, rest, hwords, hcases⟩ := Statement.ofBody_eq_error h
  rcases hcases with ⟨operand, more, rfl, rfl, hmalformed⟩ |
    ⟨operand, extra, more, argument, rfl, rfl, hwritten⟩ | ⟨argument, hwritten, hparts⟩
  · refine ⟨2, .badOperand hwords hmalformed, ?_⟩
    intro lower hlower other hother
    exact absurd (htwo hother) (Nat.not_le.2 hlower)
  · refine ⟨3, .extraWord hwords, ?_⟩
    intro lower hlower other hother
    have hrank : lower = 2 := Nat.le_antisymm (Nat.le_of_lt_succ hlower) (htwo hother)
    subst hrank
    cases hother with
    | badOperand words_eq malformed =>
      have hsame := hwords.symm.trans words_eq
      cases hsame
      exact malformed argument hwritten
  · have hfour : ∀ {rank other}, Has taken text rank other → 4 ≤ rank :=
      fun hother => four_le_of_has hwords hwritten hother (htwo hother)
    rcases Statement.ofParts_eq_error hparts with ⟨rfl, hunknown⟩ | ⟨m, rfl, hspelled, hrows⟩
    · refine ⟨4, .unknownMnemonic hwords hunknown, ?_⟩
      intro lower hlower other hother
      exact absurd (hfour hother) (Nat.not_le.2 hlower)
    · have hoperand : argument.Written (rest.take 1) := by
        rw [hwritten.take_one]
        exact hwritten
      refine ⟨5, .unsupportedMode hwords hspelled hoperand hrows, ?_⟩
      intro lower hlower other hother
      have hrank : lower = 4 := Nat.le_antisymm (Nat.le_of_lt_succ hlower) (hfour hother)
      subst hrank
      cases hother with
      | unknownMnemonic words_eq unknown =>
        have hsame := hwords.symm.trans words_eq
        cases hsame
        obtain ⟨row, hrow, rfl⟩ := m.exists_row
        exact unknown row hrow hspelled

end Line

theorem Layout.define_eq_error {layout : Layout} {label : Option (List Char)} {defect : Defect}
    (h : layout.define label = .error defect) :
    ∃ l, label = some l ∧
      ((¬isIdentifier l ∧ defect = .badLabel (String.ofList l)) ∨
        (isIdentifier l ∧ layout.offset? (String.ofList l) ≠ none ∧
          defect = .duplicateLabel (String.ofList l))) := by
  cases label with
  | none => cases h
  | some l =>
    refine ⟨l, rfl, ?_⟩
    unfold define at h
    dsimp only at h
    split at h
    · rename_i hidentifier
      cases h
      exact Or.inl ⟨by simpa using hidentifier, rfl⟩
    · rename_i hidentifier
      split at h
      · rename_i hdefined
        cases h
        exact Or.inr ⟨by simpa using hidentifier, Option.ne_none_iff_isSome.2 hdefined, rfl⟩
      · cases h

/-- A line that cannot be laid out has a defect, and its first defect is the reason. -/
theorem Line.reported_of_addLine {taken : List String} {text : List Char} {defect : Defect}
    {layout : Layout} {number : Nat} (htaken : ∀ name, layout.offset? name = none ↔ name ∉ taken)
    (h : layout.addLine number text = .error defect) : Reported taken text defect := by
  unfold Layout.addLine at h
  dsimp only at h
  cases hdefine : layout.define (ofText text).label with
  | error other =>
    rw [hdefine] at h
    cases h
    obtain ⟨label, hlabel, hcases⟩ := Layout.define_eq_error hdefine
    rcases hcases with ⟨hidentifier, rfl⟩ | ⟨hidentifier, hdefined, rfl⟩
    · exact ⟨0, .badLabel hlabel hidentifier, nofun⟩
    · have hname : name? text = some (String.ofList label) := by
        unfold name?
        rw [hlabel]
        rfl
      have hmem : String.ofList label ∈ taken :=
        Decidable.of_not_not (mt (htaken _).2 hdefined)
      refine ⟨1, .duplicateLabel hname hmem, ?_⟩
      intro lower hlower other hother
      cases hother with
      | badLabel label_eq not_identifier =>
        rw [hlabel] at label_eq
        cases label_eq
        exact not_identifier hidentifier
      | duplicateLabel | badOperand | extraWord | unknownMnemonic | unsupportedMode =>
        exact absurd hlower (by decide)
  | ok defined =>
    rw [hdefine] at h
    obtain ⟨hlabel, hfresh, -⟩ := Layout.define_eq_ok_iff.1 hdefine
    refine reported_of_ofBody hlabel (fun name hname => (htaken name).1 (hfresh name hname)) ?_
    cases hbody : Statement.ofBody (ofText text).body with
    | error other =>
      rw [hbody] at h
      cases h
      rfl
    | ok statement =>
      rw [hbody] at h
      cases statement with
      | none => cases h
      | some statement => cases h

end Cpu6502
