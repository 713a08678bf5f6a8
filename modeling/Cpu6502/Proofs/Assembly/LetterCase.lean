import Cpu6502.Proofs.Assembly.Rows
import Cpu6502.Proofs.Program.Hex

/-! # Upper and lower case

Mnemonics and hexadecimal digits can be written in upper or in lower case. Which one it is shows
only where an error quotes the source: apart from the case of letters in what is quoted, the result
of assembling is the same (`assemble_of_recased`). Labels are told apart by case.
-/

namespace Cpu6502

/-! ## Texts -/

namespace Text

variable {text text' : List Char} {separator : Char}

/-- The texts differ at most in the case of ASCII letters. -/
def SameLetters (text text' : List Char) : Prop :=
  text.map Char.toUpper = text'.map Char.toUpper

instance : Decidable (SameLetters text text') :=
  inferInstanceAs (Decidable (text.map Char.toUpper = text'.map Char.toUpper))

theorem toUpper_eq_iff
    (h : ∀ code : Fin 128, ((Char.ofNat code.val).toUpper == separator) =
      (Char.ofNat code.val == separator)) (c : Char) : c.toUpper = separator ↔ c = separator := by
  have hsame := apply_toUpper (f := (· == separator)) h c
  rw [← beq_iff_eq, hsame, beq_iff_eq]

theorem SameLetters.not_mem (h : SameLetters text text')
    (hseparator : ∀ c : Char, c.toUpper = separator ↔ c = separator) (hnot : separator ∉ text) :
    separator ∉ text' := by
  intro hmem
  have hupper : separator ∈ text'.map Char.toUpper :=
    List.mem_map.2 ⟨separator, hmem, (hseparator separator).2 rfl⟩
  rw [← h] at hupper
  rcases List.mem_map.1 hupper with ⟨c, hc, hsame⟩
  rw [(hseparator c).1 hsame] at hc
  exact hnot hc

theorem isBlank_toUpper (c : Char) : isBlank c.toUpper = isBlank c :=
  apply_toUpper (by decide) c

theorem SameLetters.trim (h : SameLetters text text') :
    SameLetters (Text.trim text) (Text.trim text') := by
  unfold SameLetters
  rw [← trim_map isBlank_toUpper, ← trim_map isBlank_toUpper, h]

end Text

/-! ## What is written in another case -/

/-- The operand words differ at most in the case of hexadecimal digits. -/
inductive Argument.Recased : List Char → List Char → Prop where
  | same (word : List Char) : Recased word word
  | immediate {digits digits' : List Char} (letters : Text.SameLetters digits digits') :
      Recased ('#' :: '$' :: digits) ('#' :: '$' :: digits')
  | byte {digits digits' : List Char} (letters : Text.SameLetters digits digits') :
      Recased ('$' :: digits) ('$' :: digits')

/-- The words of two statements differ at most in the case of the letters of the mnemonic and of
hexadecimal digits in operands. -/
inductive Statement.RecasedWords : List (List Char) → List (List Char) → Prop where
  | nil : RecasedWords [] []
  | cons {mnemonic mnemonic' : List Char} {operands operands' : List (List Char)}
      (mnemonics : Text.SameLetters mnemonic mnemonic')
      (arguments : List.Forall₂ Argument.Recased operands operands') :
      RecasedWords (mnemonic :: operands) (mnemonic' :: operands')

/-- The texts of two statements differ at most in the case of letters, and only in their mnemonics
and in hexadecimal digits. -/
structure Statement.Recased (body body' : List Char) : Prop where
  letters : Text.SameLetters body body'
  words : RecasedWords (Text.words body) (Text.words body')

/-- Two rows are the same, comments included, but for the case of letters in the mnemonic and of
hexadecimal digits in operands. -/
inductive Line.Recased : List Char → List Char → Prop where
  | same (text : List Char) : Recased text text
  | bare {body body' comment : List Char} (hcolon : ':' ∉ body) (hsemicolon : ';' ∉ body)
      (hbody : Statement.Recased body body') (hcomment : ∀ c ∈ comment.head?, c = ';') :
      Recased (body ++ comment) (body' ++ comment)
  | labelled {label body body' comment : List Char} (hcolon : ':' ∉ label)
      (hlabel : ';' ∉ label) (hsemicolon : ';' ∉ body) (hbody : Statement.Recased body body')
      (hcomment : ∀ c ∈ comment.head?, c = ';') :
      Recased (label ++ ':' :: (body ++ comment)) (label ++ ':' :: (body' ++ comment))

/-- The same defect with the texts that it quotes of mnemonics and operands in upper case. -/
def Defect.upperCase : Defect → Defect
  | unknownMnemonic text => unknownMnemonic (String.ofList (text.toList.map Char.toUpper))
  | badOperand text => badOperand (String.ofList (text.toList.map Char.toUpper))
  | defect => defect

/-- The same error, on the same line, with what it quotes of mnemonics and operands in upper
case. -/
def AssemblyError.upperCase (e : AssemblyError) : AssemblyError :=
  { e with defect := e.defect.upperCase }

/-- Computations that agree up to a view of their errors still do so when they are continued
alike. -/
theorem mapError_bind_congr {α β ε ε' : Type} {f : ε → ε'} {x x' : Except ε α}
    {g g' : α → Except ε β} (h : x'.mapError f = x.mapError f)
    (hg : ∀ a, (g' a).mapError f = (g a).mapError f) :
    (x' >>= g').mapError f = (x >>= g).mapError f := by
  cases x with
  | error e =>
    cases x' with
    | error e' => exact congrArg Except.error (Except.error.inj h)
    | ok a' => cases h
  | ok a =>
    cases x' with
    | error e' => cases h
    | ok a' =>
      rw [Except.ok.inj h]
      exact hg a

/-! ## Statements -/

/-- Texts that differ at most in the case of letters name the same mnemonic. -/
theorem Mnemonic.named?_congr {text text' : String}
    (h : Text.SameLetters text.toList text'.toList) : named? text' = named? text := by
  unfold named?
  rw [h]

/-- They have the same rows. -/
theorem Instruction.find?_congr {text text' : String}
    (h : Text.SameLetters text.toList text'.toList) : find? text' = find? text := by
  funext mode
  unfold find?
  rw [Mnemonic.named?_congr h]

namespace Argument

variable {word word' : List Char}

theorem Recased.ofWord?_eq (h : Recased word word') : ofWord? word' = ofWord? word := by
  have hbyte : ∀ {digits digits' : List Char}, Text.SameLetters digits digits' →
      Hex.byte? digits' = Hex.byte? digits := by
    intro digits digits' letters
    rw [← Hex.byte?_map_toUpper digits', ← letters, Hex.byte?_map_toUpper]
  cases h with
  | same => rfl
  | immediate letters => exact congrArg (Option.map Argument.immediate) (hbyte letters)
  | byte letters => exact congrArg (Option.map Argument.byte) (hbyte letters)

theorem Recased.sameLetters (h : Recased word word') : Text.SameLetters word word' := by
  cases h with
  | same => rfl
  | immediate letters =>
    unfold Text.SameLetters
    rw [List.map_cons, List.map_cons, letters, List.map_cons, List.map_cons]
  | byte letters =>
    unfold Text.SameLetters
    rw [List.map_cons, letters, List.map_cons]

end Argument

namespace Statement

variable {text text' mnemonic mnemonic' : List Char}

theorem upperCase_badOperand (h : Text.SameLetters text text') :
    (Defect.badOperand (String.ofList text')).upperCase =
      (Defect.badOperand (String.ofList text)).upperCase := by
  unfold Defect.upperCase
  dsimp only
  rw [String.toList_ofList, String.toList_ofList, h]

theorem upperCase_unknownMnemonic (h : Text.SameLetters text text') :
    (Defect.unknownMnemonic (String.ofList text')).upperCase =
      (Defect.unknownMnemonic (String.ofList text)).upperCase := by
  unfold Defect.upperCase
  dsimp only
  rw [String.toList_ofList, String.toList_ofList, h]

/-- The mnemonic is looked up in upper case and quoted as it is written. -/
theorem ofParts_recased (argument : Argument) (h : Text.SameLetters mnemonic mnemonic') :
    (ofParts mnemonic' argument).mapError Defect.upperCase =
      (ofParts mnemonic argument).mapError Defect.upperCase := by
  have hletters : Text.SameLetters (String.ofList mnemonic).toList
      (String.ofList mnemonic').toList := by
    rwa [String.toList_ofList, String.toList_ofList]
  unfold ofParts
  dsimp only
  rw [Mnemonic.named?_congr hletters, Instruction.find?_congr hletters]
  cases Mnemonic.named? (String.ofList mnemonic) with
  | none => exact congrArg Except.error (upperCase_unknownMnemonic h)
  | some m => rfl

theorem ofBody_recased {body body' : List Char} (h : Recased body body') :
    (ofBody body').mapError Defect.upperCase = (ofBody body).mapError Defect.upperCase := by
  have hparts : ∀ {mnemonic mnemonic' : List Char} (argument : Argument),
      Text.SameLetters mnemonic mnemonic' →
        ((ofParts mnemonic' argument).map some).mapError Defect.upperCase =
          ((ofParts mnemonic argument).map some).mapError Defect.upperCase := by
    intro mnemonic mnemonic' argument hmnemonic
    show (ofParts mnemonic' argument >>= fun statement => .ok (some statement)).mapError _ =
      (ofParts mnemonic argument >>= fun statement => .ok (some statement)).mapError _
    exact mapError_bind_congr (ofParts_recased argument hmnemonic) fun _ => rfl
  have hwords := h.words
  unfold ofBody
  generalize Text.words body = words at hwords ⊢
  generalize Text.words body' = words' at hwords ⊢
  -- the words say which defect it is, and only the defect of the first operand quotes the body
  cases hwords with
  | nil => rfl
  | cons mnemonics arguments =>
    cases arguments with
    | nil => exact hparts .none mnemonics
    | @cons operand operand' rest rest' first others =>
      dsimp only
      rw [first.ofWord?_eq]
      cases Argument.ofWord? operand with
      | none => exact congrArg Except.error (upperCase_badOperand h.letters)
      | some argument =>
        cases others with
        | nil => exact hparts argument mnemonics
        | cons extra => exact congrArg Except.error (upperCase_badOperand extra.sameLetters)

theorem Recased.trim {body body' : List Char} (h : Recased body body') :
    Recased (Text.trim body) (Text.trim body') := by
  refine ⟨h.letters.trim, ?_⟩
  rw [Text.words_trim, Text.words_trim]
  exact h.words

end Statement

/-! ## Rows -/

namespace Line

/-- What may follow the code of a row is not read. -/
theorem ofText_append_comment (code : List Char) {comment : List Char}
    (h : ∀ c ∈ comment.head?, c = ';') : ofText (code ++ comment) = ofText code := by
  cases comment with
  | nil => rw [List.append_nil]
  | cons c comment =>
    rw [h c rfl]
    exact ofText_comment code comment

/-- The label is kept, and the statement is read as one that differs in the case of letters. -/
theorem Recased.ofText {text text' : List Char} (h : Recased text text') :
    (Line.ofText text').label = (Line.ofText text).label ∧
      (Statement.ofBody (Line.ofText text').body).mapError Defect.upperCase =
        (Statement.ofBody (Line.ofText text).body).mapError Defect.upperCase := by
  have hcolons : ∀ c : Char, c.toUpper = ':' ↔ c = ':' := Text.toUpper_eq_iff (by decide)
  have hsemicolons : ∀ c : Char, c.toUpper = ';' ↔ c = ';' := Text.toUpper_eq_iff (by decide)
  cases h with
  | same => exact ⟨rfl, rfl⟩
  | bare hcolon hsemicolon hbody hcomment =>
    rw [ofText_append_comment _ hcomment, ofText_append_comment _ hcomment,
      ofText_of_not_mem hsemicolon hcolon,
      ofText_of_not_mem (hbody.letters.not_mem hsemicolons hsemicolon)
        (hbody.letters.not_mem hcolons hcolon)]
    exact ⟨rfl, Statement.ofBody_recased hbody.trim⟩
  | @labelled label body body' comment hcolon hlabel hsemicolon hbody hcomment =>
    have hcode : ∀ code, Line.ofText (label ++ ':' :: (code ++ comment)) =
        Line.ofText (label ++ ':' :: code) := by
      intro code
      rw [← List.cons_append, ← List.append_assoc, ofText_append_comment _ hcomment]
    rw [hcode, hcode, ofText_append_colon hlabel hsemicolon hcolon,
      ofText_append_colon hlabel (hbody.letters.not_mem hsemicolons hsemicolon) hcolon]
    exact ⟨rfl, Statement.ofBody_recased hbody.trim⟩

end Line

namespace Layout

variable (layout : Layout) (number : Nat)

theorem addLine_recased {text text' : List Char} (h : Line.Recased text text') :
    (layout.addLine number text').mapError Defect.upperCase =
      (layout.addLine number text).mapError Defect.upperCase := by
  rcases h.ofText with ⟨hlabel, hbody⟩
  unfold addLine
  dsimp only
  rw [hlabel]
  apply mapError_bind_congr rfl
  intro defined
  exact mapError_bind_congr hbody fun _ => rfl

theorem addLines_cons (text : List Char) (rest : List (List Char)) :
    layout.addLines number (text :: rest) =
      (layout.addLine number text).mapError (AssemblyError.mk number) >>= fun next =>
        next.addLines (number + 1) rest := by
  rw [addLines]
  cases layout.addLine number text with
  | error defect => rfl
  | ok next => rfl

/-- The first line that cannot be laid out is the same one in both cases. -/
theorem addLines_recased {lines lines' : List (List Char)}
    (h : List.Forall₂ Line.Recased lines lines') :
    (layout.addLines number lines').mapError AssemblyError.upperCase =
      (layout.addLines number lines).mapError AssemblyError.upperCase := by
  induction h generalizing layout number with
  | nil => rfl
  | cons hline _ ih =>
    -- the number of the line comes to the defect whatever its case
    have hat : ∀ result : Except Defect Layout,
        (result.mapError (AssemblyError.mk number)).mapError AssemblyError.upperCase =
          (result.mapError Defect.upperCase).mapError (AssemblyError.mk number) := by
      intro result
      cases result with
      | error defect => rfl
      | ok next => rfl
    rw [addLines_cons, addLines_cons]
    apply mapError_bind_congr
    · rw [hat, hat, addLine_recased layout number hline]
    · intro next
      exact ih next (number + 1)

end Layout

/-- The case of mnemonics and hexadecimal digits shows only in what an error quotes. -/
theorem assemble_of_recased {source source' : String}
    (h : List.Forall₂ Line.Recased (Text.rows source.toList) (Text.rows source'.toList)) :
    (assemble source').mapError AssemblyError.upperCase =
      (assemble source).mapError AssemblyError.upperCase := by
  rw [assemble_eq_rows, assemble_eq_rows]
  exact mapError_bind_congr (Layout.addLines_recased _ _ h) fun _ => rfl

end Cpu6502
