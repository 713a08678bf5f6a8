import Cpu6502.Assembly.Statement
import Cpu6502.Proofs.Text.Blank
import Cpu6502.Proofs.Text.Lines

/-! # Reading source lines

How a source line is read whose parts are known: the label before its colon, the statement after
it, and the mnemonic and the operand word of the statement. Every statement that is read has the
mode that its operand calls for, so its encoding is as long as its instruction.
-/

namespace Cpu6502

open Instruction

/-! ## Words -/

/-- What holds of the first characters can be found out one by one. -/
theorem char_of_codes {bound : Nat} {p : Char → Prop}
    (h : ∀ code : Fin bound, p (Char.ofNat code.val)) {c : Char} (hc : c.toNat < bound) : p c := by
  have hcode := h ⟨c.toNat, hc⟩
  rwa [Char.ofNat_toNat] at hcode

/-- What does not tell the two cases of the ASCII letters apart does not see the change to upper
case. -/
theorem apply_toUpper {α : Type} {f : Char → α}
    (h : ∀ code : Fin 128, f (Char.ofNat code.val).toUpper = f (Char.ofNat code.val)) (c : Char) :
    f c.toUpper = f c := by
  by_cases hc : c.toNat < 128
  · exact char_of_codes (p := fun c => f c.toUpper = f c) h hc
  · have hsame : c.toUpper = c := by
      unfold Char.toUpper
      rw [dif_neg]
      rintro ⟨-, hle⟩
      rw [UInt32.le_iff_toNat_le] at hle
      have hz : 'z'.val.toNat = 122 := rfl
      have hvalue : c.val.toNat = c.toNat := rfl
      omega
    rw [hsame]

/-- Holds of the characters that can stand inside a word: they neither part words nor end a label
or the code of a line. -/
def isPlain (c : Char) : Bool :=
  !Text.isBlank c && c ≠ ':' && c ≠ ';'

theorem isBlank_of_isPlain {c : Char} (h : isPlain c) : Text.isBlank c = false := by
  unfold isPlain at h
  simp only [Bool.and_eq_true, Bool.not_eq_true'] at h
  exact h.1.1

/-- Holds of a mnemonic or an operand as a source writes it. -/
structure IsWord (word : List Char) : Prop where
  ne_nil : word ≠ []
  plain : ∀ c ∈ word, isPlain c

theorem IsWord.words {word : List Char} (h : IsWord word) : Text.words word = [word] :=
  Text.words_eq_singleton h.ne_nil fun c hc => isBlank_of_isPlain (h.plain c hc)

/-- A mnemonic and an operand are two words. -/
theorem IsWord.words_append {word operand : List Char} (h : IsWord word)
    (hoperand : IsWord operand) : Text.words (word ++ ' ' :: operand) = [word, operand] := by
  rw [Text.words_append_cons _ _ (by decide), h.words, hoperand.words]
  rfl

theorem isPlain_of_isAlphanum {c : Char} (h : c.isAlphanum) : isPlain c := by
  have hrange : 48 ≤ c.toNat ∧ c.toNat ≤ 57 ∨ 65 ≤ c.toNat ∧ c.toNat ≤ 90 ∨
      97 ≤ c.toNat ∧ c.toNat ≤ 122 := by
    change ((decide (c.val ≥ 'A'.val ∧ c.val ≤ 'Z'.val) || (c.val ≥ 'a'.val && c.val ≤ 'z'.val)) ||
      (c.val ≥ '0'.val && c.val ≤ '9'.val)) = true at h
    simp only [Bool.or_eq_true, Bool.and_eq_true, decide_eq_true_eq, ge_iff_le,
      UInt32.le_iff_toNat_le] at h
    have hvalue : c.val.toNat = c.toNat := rfl
    have hbounds : '0'.val.toNat = 48 ∧ '9'.val.toNat = 57 ∧ 'A'.val.toNat = 65 ∧
        'Z'.val.toNat = 90 ∧ 'a'.val.toNat = 97 ∧ 'z'.val.toNat = 122 := by decide
    omega
  -- the separators and the blank characters lie outside the three ranges
  have hcolon : c ≠ ':' := by
    rintro rfl
    exact absurd hrange (by decide)
  have hsemicolon : c ≠ ';' := by
    rintro rfl
    exact absurd hrange (by decide)
  have hblank : Text.isBlank c = false := by
    unfold Text.isBlank Text.blankRanges
    simp only [List.any_cons, List.any_nil, Bool.or_eq_false_iff, Bool.and_eq_false_iff,
      decide_eq_false_iff_not, and_true]
    omega
  unfold isPlain
  simp [hblank, hcolon, hsemicolon]

theorem IsWord.of_isIdentifier {text : List Char} (h : isIdentifier text) : IsWord text := by
  have hunderscore : isPlain '_' := by decide
  cases text with
  | nil => exact absurd h (by decide)
  | cons c rest =>
    simp only [isIdentifier, Bool.and_eq_true, Bool.or_eq_true, decide_eq_true_eq,
      List.all_eq_true] at h
    refine ⟨List.cons_ne_nil c rest, ?_⟩
    intro d hd
    rcases List.mem_cons.1 hd with rfl | hd
    · rcases h.1 with hletter | rfl
      · exact isPlain_of_isAlphanum (by simp [Char.isAlphanum, hletter])
      · exact hunderscore
    · rcases h.2 d hd with hletter | rfl
      · exact isPlain_of_isAlphanum hletter
      · exact hunderscore

theorem Mnemonic.isWord_name (m : Mnemonic) : IsWord m.name.toList := by
  have hplain : m.name.toList ≠ [] ∧ m.name.toList.all isPlain := by
    cases m <;> decide
  exact ⟨hplain.1, List.all_eq_true.1 hplain.2⟩

theorem isPlain_digit {value : Nat} (h : value < 16) : isPlain (Hex.digit value) := by
  have hall : ∀ v : Fin 16, isPlain (Hex.digit v.val) := by decide
  exact hall ⟨value, h⟩

theorem isPlain_of_mem_digits {width value : Nat} {c : Char} (h : c ∈ Hex.digits width value) :
    isPlain c := by
  induction width generalizing value with
  | zero => exact absurd h List.not_mem_nil
  | succ width ih =>
    rcases List.mem_append.1 h with hhigh | hlow
    · exact ih hhigh
    · rw [List.mem_singleton.1 hlow]
      exact isPlain_digit (Nat.mod_lt _ (by decide))

/-- Holds of a statement as a source writes it: words with spaces between them. -/
structure IsBody (body : List Char) : Prop where
  plain_or_space : ∀ c ∈ body, isPlain c ∨ c = ' '
  first : ∀ c ∈ body.head?, isPlain c
  last : ∃ c ∈ body.getLast?, isPlain c

theorem IsWord.isBody {word : List Char} (h : IsWord word) : IsBody word := by
  refine ⟨fun c hc => Or.inl (h.plain c hc), ?_, ?_⟩
  · intro c hc
    exact h.plain c (List.mem_of_head? hc)
  · exact ⟨word.getLast h.ne_nil, List.getLast?_eq_some_getLast h.ne_nil,
      h.plain _ (List.getLast_mem h.ne_nil)⟩

/-- A mnemonic and an operand. -/
theorem IsWord.isBody_append {word operand : List Char} (h : IsWord word)
    (hoperand : IsWord operand) : IsBody (word ++ ' ' :: operand) := by
  refine ⟨?_, ?_, ?_⟩
  · intro c hc
    rcases List.mem_append.1 hc with hc | hc
    · exact Or.inl (h.plain c hc)
    · rcases List.mem_cons.1 hc with rfl | hc
      · exact Or.inr rfl
      · exact Or.inl (hoperand.plain c hc)
  · intro c hc
    rw [List.head?_append, List.head?_eq_some_head h.ne_nil] at hc
    cases hc
    exact h.plain _ (List.head_mem h.ne_nil)
  · rcases hoperand.isBody.last with ⟨c, hc, hplain⟩
    refine ⟨c, ?_, hplain⟩
    rw [Option.mem_def] at hc ⊢
    rw [List.getLast?_append, List.getLast?_cons_of_ne_nil hoperand.ne_nil, hc]
    rfl

namespace IsBody

variable {body : List Char}

theorem not_mem (h : IsBody body) {c : Char} (hplain : isPlain c = false) (hspace : c ≠ ' ') :
    c ∉ body := by
  intro hc
  rcases h.plain_or_space c hc with hc | rfl
  · rw [hplain] at hc
    cases hc
  · exact hspace rfl

theorem trim (h : IsBody body) : Text.trim body = body := by
  apply Text.trim_eq_self
  · intro c hc
    exact isBlank_of_isPlain (h.first c hc)
  · intro c hc
    rcases h.last with ⟨d, hd, hplain⟩
    rw [Option.mem_def] at hc hd
    rw [hc] at hd
    cases hd
    exact isBlank_of_isPlain hplain

/-- A text that ends in a statement and has no line feed is read back as one line. -/
theorem isLine_append (h : IsBody body) {text : List Char} (htext : '\n' ∉ text) :
    Text.IsLine (text ++ body) := by
  rcases h.last with ⟨c, hc, hplain⟩
  have hlast : (text ++ body).getLast? = some c := by
    rw [List.getLast?_append, Option.mem_def.1 hc]
    rfl
  refine ⟨?_, ?_, ?_⟩
  · intro hnil
    rw [hnil] at hlast
    cases hlast
  · intro hmem
    rcases List.mem_append.1 hmem with hmem | hmem
    · exact htext hmem
    · exact h.not_mem (by decide) (by decide) hmem
  · rw [hlast]
    intro hreturn
    rw [Option.some.inj hreturn] at hplain
    exact absurd hplain (by decide)

theorem isLine (h : IsBody body) : Text.IsLine body :=
  h.isLine_append (List.not_mem_nil (a := '\n'))

end IsBody

/-! ## Operands -/

namespace Argument

/-- The operand word of an argument. -/
def word : Argument → List Char
  | none => []
  | immediate value => '#' :: '$' :: Hex.digits 2 value.toNat
  | byte value => '$' :: Hex.digits 2 value.toNat
  | label name => name.toList

/-- The argument is not a label that no source could name. -/
def Writable (argument : Argument) : Prop :=
  ∀ name, argument = label name → isIdentifier name.toList

variable {argument : Argument}

theorem isWord_word (hne : argument ≠ none) (h : argument.Writable) : IsWord argument.word := by
  cases argument with
  | none => exact absurd rfl hne
  | immediate value =>
    refine ⟨List.cons_ne_nil _ _, ?_⟩
    intro c hc
    rcases List.mem_cons.1 hc with rfl | hc
    · decide
    · rcases List.mem_cons.1 hc with rfl | hc
      · decide
      · exact isPlain_of_mem_digits hc
  | byte value =>
    refine ⟨List.cons_ne_nil _ _, ?_⟩
    intro c hc
    rcases List.mem_cons.1 hc with rfl | hc
    · decide
    · exact isPlain_of_mem_digits hc
  | label name => exact .of_isIdentifier (h name rfl)

theorem ofWord?_of_isIdentifier {text : List Char} (h : isIdentifier text) :
    ofWord? text = some (label (String.ofList text)) := by
  unfold ofWord?
  split
  · exact absurd h (by simp [isIdentifier])
  · exact absurd h (by simp [isIdentifier])
  · rw [if_pos h]

/-- The operand words of a statement say its argument. -/
inductive Written : Argument → List (List Char) → Prop where
  | none : Written none []
  | immediate {digits : List Char} {value : UInt8} (read : Hex.byte? digits = some value) :
      Written (immediate value) ['#' :: '$' :: digits]
  | byte {digits : List Char} {value : UInt8} (read : Hex.byte? digits = some value) :
      Written (byte value) ['$' :: digits]
  | label {name : List Char} (identifier : isIdentifier name) :
      Written (label (String.ofList name)) [name]

theorem written_of_ofWord? {word : List Char} (h : ofWord? word = some argument) :
    argument.Written [word] := by
  unfold ofWord? at h
  split at h
  · rcases Option.map_eq_some_iff.1 h with ⟨value, hread, rfl⟩
    exact .immediate hread
  · rcases Option.map_eq_some_iff.1 h with ⟨value, hread, rfl⟩
    exact .byte hread
  · split at h
    · rename_i hidentifier
      cases h
      exact .label hidentifier
    · cases h

/-- An operand word reads back as its argument. -/
theorem ofWord?_word (hne : argument ≠ none) (h : argument.Writable) :
    ofWord? argument.word = some argument := by
  cases argument with
  | none => exact absurd rfl hne
  | immediate value => exact congrArg (Option.map immediate) (Hex.byte?_digits value)
  | byte value => exact congrArg (Option.map byte) (Hex.byte?_digits value)
  | label name =>
    rw [word, ofWord?_of_isIdentifier (h name rfl), String.ofList_toList]

end Argument

/-! ## Statements -/

theorem Mnemonic.named?_name (m : Mnemonic) : Mnemonic.named? m.name = some m := by
  cases m <;> decide

theorem Instruction.find?_name {i : Instruction} (hi : i ∈ table) :
    find? i.mnemonic.name i.mode = some i := by
  have hall : ∀ i ∈ table, find? i.mnemonic.name i.mode = some i := by decide
  exact hall i hi

/-- A mnemonic is named by a text that spells it in any case of letters. -/
theorem Mnemonic.name_of_named? {text : String} {m : Mnemonic} (h : named? text = some m) :
    m.name.toList = text.toList.map Char.toUpper := by
  simpa using List.find?_some h

theorem Instruction.of_find? {text : String} {mode : AddressingMode} {i : Instruction}
    (h : find? text mode = some i) :
    i ∈ table ∧ Mnemonic.named? text = some i.mnemonic ∧ i.mode = mode := by
  unfold find? at h
  rw [Option.bind_eq_bind, Option.bind_eq_some_iff] at h
  rcases h with ⟨m, hm, hfind⟩
  have hrow := List.find?_some hfind
  simp only [Bool.and_eq_true, decide_eq_true_eq] at hrow
  rw [hrow.1]
  exact ⟨List.mem_of_find?_eq_some hfind, hm, hrow.2⟩

theorem Instruction.relative_mem_modesOf_iff (m : Mnemonic) :
    .relative ∈ modesOf m ↔ m = .bcc ∨ m = .bcs := by
  cases m <;> decide

/-- A branch has no other mode than the relative one. -/
theorem Instruction.mode_eq_relative_iff {i : Instruction} (hi : i ∈ table) :
    i.mode = .relative ↔ .relative ∈ modesOf i.mnemonic := by
  have hall : ∀ i ∈ table, i.mode = .relative ↔ .relative ∈ modesOf i.mnemonic := by decide
  exact hall i hi

namespace Statement

/-- The statement is a row of the table in the mode that its operand calls for. -/
structure WellFormed (statement : Statement) : Prop where
  mem_table : statement.instruction ∈ table
  mode : statement.instruction.mode = statement.argument.mode statement.instruction.mnemonic

/-- Only a statement without an operand has no operand byte. -/
theorem WellFormed.size {statement : Statement} (h : statement.WellFormed) :
    statement.instruction.size = if statement.argument = .none then 1 else 2 := by
  have hmode := h.mode
  unfold Instruction.size
  cases hargument : statement.argument with
  | byte value =>
    rw [hargument, Argument.mode] at hmode
    rw [hmode]
    split <;> rfl
  | none | immediate value | label name =>
    rw [hargument] at hmode
    rw [hmode]
    rfl

theorem ofParts_name {statement : Statement} (h : statement.WellFormed) :
    ofParts statement.instruction.mnemonic.name.toList statement.argument = .ok statement := by
  have hfind := find?_name h.mem_table
  rw [h.mode] at hfind
  unfold ofParts
  rw [String.ofList_toList]
  dsimp only
  rw [Mnemonic.named?_name]
  dsimp only
  rw [hfind]

/-- A statement has a row of the table whose mnemonic is spelled, in any case of letters, as it is
written. -/
theorem of_ofParts {mnemonic : List Char} {argument : Argument} {statement : Statement}
    (h : ofParts mnemonic argument = .ok statement) :
    statement.argument = argument ∧ statement.WellFormed ∧
      statement.instruction.mnemonic.name.toList = mnemonic.map Char.toUpper := by
  unfold ofParts at h
  dsimp only at h
  split at h
  · cases h
  · rename_i m hm
    split at h
    · cases h
    · rename_i i hfind
      cases h
      -- the search is for the mnemonic that was read and the mode of the argument
      rcases Instruction.of_find? hfind with ⟨hi, hnamed, hmode⟩
      have hspelled := Mnemonic.name_of_named? hnamed
      rw [String.toList_ofList] at hspelled
      rw [hm] at hnamed
      cases hnamed
      exact ⟨rfl, ⟨hi, hmode⟩, hspelled⟩

/-- A statement that is read from a line has been put together from the words of the line. -/
theorem exists_parts_of_ofBody {body : List Char} {statement : Statement}
    (h : ofBody body = .ok (some statement)) :
    ∃ mnemonic operand argument, Text.words body = mnemonic :: operand ∧
      argument.Written operand ∧ ofParts mnemonic argument = .ok statement := by
  have hmap : ∀ {mnemonic argument},
      (ofParts mnemonic argument).map some = .ok (some statement) →
        ofParts mnemonic argument = .ok statement := by
    intro mnemonic argument hmap
    cases hresult : ofParts mnemonic argument with
    | error defect =>
      rw [hresult] at hmap
      cases hmap
    | ok result =>
      rw [hresult] at hmap
      cases hmap
      rfl
  unfold ofBody at h
  split at h
  · cases h
  · rename_i mnemonic hwords
    exact ⟨mnemonic, [], .none, hwords, .none, hmap h⟩
  · rename_i mnemonic operand rest hwords
    split at h
    · cases h
    · cases h
    · rename_i argument hword
      exact ⟨mnemonic, [operand], argument, hwords, Argument.written_of_ofWord? hword, hmap h⟩

/-- Whatever is read from a line is well formed. -/
theorem wellFormed_of_ofBody {body : List Char} {statement : Statement}
    (h : ofBody body = .ok (some statement)) : statement.WellFormed := by
  rcases exists_parts_of_ofBody h with ⟨mnemonic, operand, argument, -, -, hparts⟩
  exact (of_ofParts hparts).2.1

/-- Where no statement is read, there are no words. -/
theorem words_of_ofBody_none {body : List Char} (h : ofBody body = .ok none) :
    Text.words body = [] := by
  have hmap : ∀ {mnemonic argument}, (ofParts mnemonic argument).map some ≠ .ok none := by
    intro mnemonic argument
    cases ofParts mnemonic argument with
    | error defect => exact nofun
    | ok statement => exact nofun
  unfold ofBody at h
  split at h
  · assumption
  · exact absurd h hmap
  · split at h
    · cases h
    · cases h
    · exact absurd h hmap

theorem ofBody_nil : ofBody [] = .ok none := rfl

/-- The text of a statement. -/
def text (statement : Statement) : List Char :=
  if statement.argument = .none then statement.instruction.mnemonic.name.toList
  else statement.instruction.mnemonic.name.toList ++ ' ' :: statement.argument.word

variable {statement : Statement}

theorem isBody_text (h : statement.argument.Writable) : IsBody statement.text := by
  have hname := statement.instruction.mnemonic.isWord_name
  unfold text
  split
  · exact hname.isBody
  · rename_i hne
    exact hname.isBody_append (Argument.isWord_word hne h)

theorem words_text (hne : statement.argument ≠ .none) (h : statement.argument.Writable) :
    Text.words statement.text =
      [statement.instruction.mnemonic.name.toList, statement.argument.word] := by
  have hname := statement.instruction.mnemonic.isWord_name
  have hword := Argument.isWord_word hne h
  unfold text
  rw [if_neg hne, hname.words_append hword]

/-- The text of a statement reads back as the statement. -/
theorem ofBody_text (hformed : statement.WellFormed) (h : statement.argument.Writable) :
    ofBody statement.text = .ok (some statement) := by
  have hparts := ofParts_name hformed
  unfold ofBody
  by_cases hne : statement.argument = .none
  · have hname := statement.instruction.mnemonic.isWord_name
    unfold text
    rw [if_pos hne, hname.words]
    rw [hne] at hparts
    dsimp only
    rw [hparts]
    rfl
  · rw [words_text hne h]
    dsimp only
    rw [Argument.ofWord?_word hne h]
    dsimp only
    rw [hparts]
    rfl

end Statement

/-! ## Lines -/

namespace Line

variable {separator : Char} {text : List Char}

theorem all_ne (h : separator ∉ text) : ∀ c ∈ text, decide (c ≠ separator) = true := by
  intro c hc
  rw [decide_eq_true_eq]
  rintro rfl
  exact h hc

theorem takeWhile_eq_self (h : separator ∉ text) : text.takeWhile (· ≠ separator) = text := by
  have htake : (text ++ []).takeWhile (· ≠ separator) = text ++ [].takeWhile (· ≠ separator) :=
    List.takeWhile_append_of_pos (all_ne h)
  simpa using htake

theorem dropWhile_eq_nil (h : separator ∉ text) : text.dropWhile (· ≠ separator) = [] := by
  have hdrop : (text ++ []).dropWhile (· ≠ separator) = [].dropWhile (· ≠ separator) :=
    List.dropWhile_append_of_pos (all_ne h)
  simpa using hdrop

/-- A line without a colon is all statement. -/
theorem ofText_of_not_mem (hsemicolon : ';' ∉ text) (hcolon : ':' ∉ text) :
    ofText text = ⟨none, Text.trim text⟩ := by
  have htrim : ':' ∉ Text.trim text := fun hmem => hcolon ((Text.trim_sublist text).mem hmem)
  unfold ofText
  rw [takeWhile_eq_self hsemicolon]
  dsimp only
  rw [dropWhile_eq_nil htrim]

/-- The first colon of a line ends its label. -/
theorem ofText_append_colon {label body : List Char} (hlabel : ';' ∉ label) (hbody : ';' ∉ body)
    (hcolon : ':' ∉ label) :
    ofText (label ++ ':' :: body) = ⟨some (Text.trim label), Text.trim body⟩ := by
  have hsemicolon : ';' ∉ label ++ ':' :: body := by
    intro hmem
    rcases List.mem_append.1 hmem with hmem | hmem
    · exact hlabel hmem
    · rcases List.mem_cons.1 hmem with heq | hmem
      · exact absurd heq (by decide)
      · exact hbody hmem
  -- trimming the line leaves the colon, with the start of the label and the end of the body
  have hstart : ':' ∉ Text.trimStart label := fun hmem =>
    hcolon ((List.dropWhile_sublist _).mem hmem)
  have hcode : Text.trim (label ++ ':' :: body) =
      Text.trimStart label ++ ':' :: Text.trimEnd body :=
    Text.trim_append_cons label body (by decide)
  unfold ofText
  rw [takeWhile_eq_self hsemicolon]
  dsimp only
  rw [hcode, List.dropWhile_append_of_pos (all_ne hstart),
    List.takeWhile_append_of_pos (all_ne hstart), List.dropWhile_cons_of_neg (by decide),
    List.takeWhile_cons_of_neg (by decide), List.append_nil]
  dsimp only
  rw [Text.trim_trimStart, Text.trim_trimEnd]

/-- A line with a statement alone. -/
theorem ofText_body {body : List Char} (h : IsBody body) : ofText body = ⟨none, body⟩ := by
  have hsemicolon := h.not_mem (by decide : isPlain ';' = false) (by decide)
  have hcolon := h.not_mem (by decide : isPlain ':' = false) (by decide)
  rw [ofText_of_not_mem hsemicolon hcolon, h.trim]

variable {label : List Char}

/-- A line with a label alone. -/
theorem ofText_label (h : IsWord label) : ofText (label ++ [':']) = ⟨some label, []⟩ := by
  have hsemicolon := h.isBody.not_mem (by decide : isPlain ';' = false) (by decide)
  have hcolon := h.isBody.not_mem (by decide : isPlain ':' = false) (by decide)
  rw [ofText_append_colon hsemicolon List.not_mem_nil hcolon, h.isBody.trim]
  rfl

/-- A line with a label before the statement. -/
theorem ofText_label_body (h : IsWord label) {gap body : List Char}
    (hgap : ∀ c ∈ gap, Text.isBlank c) (hbody : IsBody body) :
    ofText (label ++ ':' :: (gap ++ body)) = ⟨some label, body⟩ := by
  have hsemicolon := h.isBody.not_mem (by decide : isPlain ';' = false) (by decide)
  have hcolon := h.isBody.not_mem (by decide : isPlain ':' = false) (by decide)
  have hrest : ';' ∉ gap ++ body := by
    intro hmem
    rcases List.mem_append.1 hmem with hmem | hmem
    · exact absurd (hgap _ hmem) (by decide)
    · exact hbody.not_mem (by decide) (by decide) hmem
  rw [ofText_append_colon hsemicolon hrest hcolon, h.isBody.trim,
    Text.trim_append_of_blank hgap, hbody.trim]

end Line

end Cpu6502
