import Mathlib.Data.List.Forall2
import Mathlib.Logic.Relation
import Cpu6502.Proofs.Assembly.Composition

/-! # Rows

A source is a list of rows with line feeds between them, and each row is laid out as it is read. So
whatever leaves alone how rows are read leaves the result of assembling alone: comments and blank
space (`assemble_of_restyled`), and carriage returns before line feeds (`assemble_of_returned`).
-/

namespace Cpu6502

/-! ## Rows -/

/-- What stands between the line feeds of a text. -/
def Text.rows (text : List Char) : List (List Char) :=
  pieces (· == '\n') text

namespace Layout

/-- The rows of a source are laid out like its lines. -/
theorem ofLines_rows (source : List Char) :
    ofLines (Text.rows source) = ofLines (Text.lines source) := by
  -- with a line feed after it, a source has its rows as lines, up to carriage returns
  have hrows : Text.lines (source ++ ['\n']) = (Text.rows source).map Text.dropReturn := by
    have hnil : Text.lines [] = [] := rfl
    rw [Text.lines_append_cons, hnil, List.append_nil]
    rfl
  rw [← ofLines_lines_concat, hrows]
  apply addLines_congr
  rw [List.map_map]
  exact List.map_congr_left fun text _ => (Line.ofText_dropReturn text).symm

end Layout

theorem assemble_eq_rows (source : String) :
    assemble source = do
      let layout ← Layout.ofLines (Text.rows source.toList)
      return (← layout.chunks).flatten := by
  rw [Layout.ofLines_rows]
  rfl

/-! ## Comments and blank space -/

/-- One row is the other with a comment or with blank space added, at either end or around the colon
of a label. -/
inductive Line.Restyled : List Char → List Char → Prop where
  | comment (text comment : List Char) : Restyled text (text ++ ';' :: comment)
  | before (text : List Char) {blank : List Char} (hblank : ∀ c ∈ blank, Text.isBlank c) :
      Restyled text (blank ++ text)
  | after (text : List Char) {blank : List Char} (hblank : ∀ c ∈ blank, Text.isBlank c) :
      Restyled text (text ++ blank)
  | beforeColon {label blank : List Char} (rest : List Char) (hcolon : ':' ∉ label)
      (hsemicolon : ';' ∉ label) (hblank : ∀ c ∈ blank, Text.isBlank c) :
      Restyled (label ++ ':' :: rest) (label ++ blank ++ ':' :: rest)
  | afterColon {label blank : List Char} (rest : List Char) (hcolon : ':' ∉ label)
      (hsemicolon : ';' ∉ label) (hblank : ∀ c ∈ blank, Text.isBlank c) :
      Restyled (label ++ ':' :: rest) (label ++ ':' :: (blank ++ rest))

namespace Line

/-- Only the code of a row, which ends at the first semicolon, is read. -/
theorem ofText_congr {text text' : List Char}
    (h : Text.trim (text.takeWhile (· ≠ ';')) = Text.trim (text'.takeWhile (· ≠ ';'))) :
    ofText text = ofText text' := by
  unfold ofText
  rw [h]

theorem takeWhile_append_of_not_mem {text : List Char} (h : ';' ∉ text) (rest : List Char) :
    (text ++ rest).takeWhile (· ≠ ';') = text ++ rest.takeWhile (· ≠ ';') :=
  List.takeWhile_append_of_pos (all_ne h)

theorem takeWhile_append_of_mem {text : List Char} (h : ';' ∈ text) (rest : List Char) :
    (text ++ rest).takeWhile (· ≠ ';') = text.takeWhile (· ≠ ';') := by
  rcases List.append_of_mem h with ⟨code, comment, rfl⟩
  induction code with
  | nil => rfl
  | cons c code ih =>
    have hmem : ';' ∈ code ++ ';' :: comment := List.mem_append_right _ List.mem_cons_self
    rw [List.cons_append, List.cons_append, List.takeWhile_cons, List.takeWhile_cons, ih hmem]

theorem ofText_comment (text comment : List Char) :
    ofText (text ++ ';' :: comment) = ofText text := by
  apply ofText_congr
  by_cases hmem : ';' ∈ text
  · rw [takeWhile_append_of_mem hmem]
  · rw [takeWhile_append_of_not_mem hmem, takeWhile_eq_self hmem]
    exact congrArg Text.trim (List.append_nil text)

/-- The first colon ends the label, even if a comment follows. -/
theorem ofText_labelled {label : List Char} (hcolon : ':' ∉ label) (hsemicolon : ';' ∉ label)
    (rest : List Char) :
    ofText (label ++ ':' :: rest) =
      ⟨some (Text.trim label), Text.trim (rest.takeWhile (· ≠ ';'))⟩ := by
  have hrest : ';' ∉ rest.takeWhile (· ≠ ';') := by
    intro hmem
    have hne := List.all_eq_true.1 List.all_takeWhile _ hmem
    exact absurd hne (by decide)
  have hcode : ofText (label ++ ':' :: rest) =
      ofText (label ++ ':' :: rest.takeWhile (· ≠ ';')) := by
    apply ofText_congr
    rw [takeWhile_append_of_not_mem hsemicolon, takeWhile_append_of_not_mem hsemicolon,
      List.takeWhile_cons_of_pos (by decide), List.takeWhile_cons_of_pos (by decide),
      takeWhile_eq_self hrest]
  rw [hcode, ofText_append_colon hsemicolon hrest hcolon]

/-- Comments and blank space leave what a row is read as. -/
theorem Restyled.ofText_eq {text text' : List Char} (h : Restyled text text') :
    ofText text' = ofText text := by
  have hblanks : ∀ {separator : Char} {blank : List Char}, Text.isBlank separator = false →
      (∀ c ∈ blank, Text.isBlank c) → separator ∉ blank := by
    intro separator blank hseparator hblank hmem
    rw [hblank _ hmem] at hseparator
    cases hseparator
  cases h with
  | comment text comment => exact ofText_comment text comment
  | @before text blank hblank =>
    apply ofText_congr
    rw [takeWhile_append_of_not_mem (hblanks (by decide) hblank)]
    exact Text.trim_append_of_blank hblank _
  | @after text blank hblank =>
    -- behind a semicolon the blank space belongs to the comment
    apply ofText_congr
    by_cases hmem : ';' ∈ text
    · rw [takeWhile_append_of_mem hmem]
    · rw [takeWhile_append_of_not_mem hmem, takeWhile_eq_self hmem,
        takeWhile_eq_self (hblanks (by decide) hblank)]
      exact Text.trim_append_of_blank_right text hblank
  | @beforeColon label blank rest hcolon hsemicolon hblank =>
    have hnot : ∀ {separator : Char}, Text.isBlank separator = false → separator ∉ label →
        separator ∉ label ++ blank := by
      intro separator hseparator hlabel hmem
      rcases List.mem_append.1 hmem with hmem | hmem
      · exact hlabel hmem
      · exact hblanks hseparator hblank hmem
    rw [ofText_labelled (hnot (by decide) hcolon) (hnot (by decide) hsemicolon),
      ofText_labelled hcolon hsemicolon, Text.trim_append_of_blank_right label hblank]
  | @afterColon label blank rest hcolon hsemicolon hblank =>
    rw [ofText_labelled hcolon hsemicolon, ofText_labelled hcolon hsemicolon,
      takeWhile_append_of_not_mem (hblanks (by decide) hblank), Text.trim_append_of_blank hblank]

end Line

/-- Rows that are read as the same are laid out the same. -/
theorem assemble_congr {source source' : String}
    (h : (Text.rows source'.toList).map Line.ofText = (Text.rows source.toList).map Line.ofText) :
    assemble source' = assemble source := by
  rw [assemble_eq_rows, assemble_eq_rows]
  unfold Layout.ofLines
  rw [Layout.addLines_congr h]

theorem assemble_of_restyled {source source' : String}
    (h : List.Forall₂ (Relation.EqvGen Line.Restyled) (Text.rows source.toList)
      (Text.rows source'.toList)) : assemble source' = assemble source := by
  have hread : ∀ {text text'}, Relation.EqvGen Line.Restyled text text' →
      Line.ofText text = Line.ofText text' := by
    intro text text' h
    induction h with
    | rel text text' h => exact h.ofText_eq.symm
    | refl text => rfl
    | symm text text' _ ih => exact ih.symm
    | trans text text' text'' _ _ ih ih' => exact ih.trans ih'
  apply assemble_congr
  rw [← List.forall₂_eq_eq_eq, List.forall₂_map_left_iff, List.forall₂_map_right_iff]
  exact h.flip.imp fun text' text hedited => (hread hedited).symm

/-! ## Carriage returns -/

/-- The second text is the first one with a carriage return before some of its line feeds. -/
inductive Text.Returned : List Char → List Char → Prop where
  | nil : Returned [] []
  | keep (c : Char) {text text' : List Char} (rest : Returned text text') :
      Returned (c :: text) (c :: text')
  | insert {text text' : List Char} (rest : Returned text text') :
      Returned ('\n' :: text) ('\r' :: '\n' :: text')

theorem Text.Returned.append_left (start : List Char) {text text' : List Char}
    (h : Returned text text') : Returned (start ++ text) (start ++ text') := by
  induction start with
  | nil => exact h
  | cons c start ih => exact .keep c ih

theorem Text.Returned.refl (text : List Char) : Returned text text := by
  have hnil := append_left text .nil
  rw [List.append_nil] at hnil
  exact hnil

/-- The carriage returns end rows. -/
theorem Text.Returned.rows {text text' : List Char} (h : Returned text text') :
    List.Forall₂ (fun row row' => row' = row ∨ row' = row ++ ['\r']) (Text.rows text)
      (Text.rows text') := by
  unfold Text.rows
  induction h with
  | nil => exact .cons (Or.inl rfl) .nil
  | @keep c text text' _ ih =>
    rw [pieces_cons, pieces_cons]
    split
    · exact .cons (Or.inl rfl) ih
    · generalize pieces (· == '\n') text = rows at ih ⊢
      generalize pieces (· == '\n') text' = rows' at ih ⊢
      cases ih with
      | nil => exact .nil
      | @cons row row' rows rows' hrow hrows =>
        refine .cons ?_ hrows
        rcases hrow with rfl | rfl
        · exact Or.inl rfl
        · exact Or.inr rfl
  | @insert text text' _ ih =>
    -- the row of the carriage return was empty so far
    have hreturn : pieces (· == '\n') ('\r' :: '\n' :: text') =
        ['\r'] :: pieces (· == '\n') text' := rfl
    rw [hreturn]
    exact .cons (Or.inr rfl) ih

theorem assemble_of_returned {source source' : String}
    (h : Text.Returned source.toList source'.toList) : assemble source' = assemble source := by
  have hblank : ∀ c ∈ ['\r'], Text.isBlank c := List.forall_mem_singleton.2 (by decide)
  apply assemble_of_restyled
  refine h.rows.imp ?_
  intro row row' hrow
  rcases hrow with rfl | rfl
  · exact .refl _
  · exact .rel _ _ (.after row hblank)

end Cpu6502
