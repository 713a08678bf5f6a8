import Cpu6502.Text.Pieces

/-! # Lines

A text falls into lines from its first line on: what stands before the first line feed is a line,
and the lines of the remaining text are the others. Lines that are joined with line feeds are read
back as they are, unless they are empty or end in a carriage return.
-/

namespace Cpu6502.Text

theorem pieces_eq_singleton {isSeparator : Char → Bool} {text : List Char}
    (h : ∀ c ∈ text, isSeparator c = false) : pieces isSeparator text = [text] := by
  induction text with
  | nil => rfl
  | cons c text ih =>
    have hrest := ih fun d hd => h d (List.mem_cons_of_mem _ hd)
    rw [pieces_cons, hrest, h c List.mem_cons_self]
    rfl

theorem not_newline {text : List Char} (h : '\n' ∉ text) : ∀ c ∈ text, (c == '\n') = false := by
  intro c hc
  have hne : c ≠ '\n' := by
    rintro rfl
    exact h hc
  simp [hne]

/-- A text without a line feed is one line, or none if it is empty. -/
theorem lines_of_not_mem {text : List Char} (h : '\n' ∉ text) (hne : text ≠ []) :
    lines text = [text] := by
  unfold lines
  rw [pieces_eq_singleton (not_newline h)]
  simp [hne]

/-- Each line feed ends a line, which may be empty, and the lines of what follows are those of the
remaining text. -/
theorem lines_append_cons (s t : List Char) :
    lines (s ++ '\n' :: t) = (pieces (· == '\n') s).map dropReturn ++ lines t := by
  -- the last piece belongs to the rest, so no piece before the line feed is the one to be dropped
  have hrest := pieces_ne_nil (· == '\n') t
  have hlast : (pieces (· == '\n') s ++ pieces (· == '\n') t).getLast? =
      (pieces (· == '\n') t).getLast? := by
    rw [List.getLast?_append, List.getLast?_eq_some_getLast hrest]
    rfl
  unfold lines
  rw [pieces_append_cons _ _ _ (by simp)]
  dsimp only
  rw [List.dropLast_append_of_ne_nil hrest, List.map_append, List.append_assoc, hlast]

/-- What follows a line feed has lines of its own. -/
theorem lines_concat_append (s t : List Char) :
    lines (s ++ '\n' :: t) = lines (s ++ ['\n']) ++ lines t := by
  have hnil : lines [] = [] := rfl
  rw [lines_append_cons, lines_append_cons, hnil, List.append_nil]

/-- With a line feed after it, a text has the line that it ends in even if that line is empty. -/
theorem exists_lines_concat (text : List Char) :
    ∃ before last, lines text = before ++ [last].filter (· ≠ []) ∧
      lines (text ++ ['\n']) = before ++ [dropReturn last] := by
  have hlines := lines_append_cons text []
  obtain hnil | ⟨before, last, hpieces⟩ := List.eq_nil_or_concat (pieces (· == '\n') text)
  · exact absurd hnil (pieces_ne_nil _ text)
  · rw [List.concat_eq_append] at hpieces
    refine ⟨before.map dropReturn, last, ?_, ?_⟩
    · unfold lines
      rw [hpieces]
      simp
    · rw [hlines, hpieces, List.map_append]
      exact List.append_nil _

/-- The first line of a text ends at the first line feed. -/
theorem lines_append_newline {line : List Char} (h : '\n' ∉ line) (rest : List Char) :
    lines (line ++ '\n' :: rest) = dropReturn line :: lines rest := by
  rw [lines_append_cons, pieces_eq_singleton (not_newline h)]
  rfl

/-- Holds of a text that is read back as one line when line feeds are put around it. -/
structure IsLine (line : List Char) : Prop where
  ne_nil : line ≠ []
  newline_not_mem : '\n' ∉ line
  last : line.getLast? ≠ some '\r'

/-- Lines that are joined with line feeds are the lines of the text. -/
theorem lines_intercalate {texts : List (List Char)} (h : ∀ line ∈ texts, IsLine line) :
    lines (['\n'].intercalate texts) = texts := by
  induction texts with
  | nil => rfl
  | cons line texts ih =>
    have hline := h line List.mem_cons_self
    have hrest := ih fun l hl => h l (List.mem_cons_of_mem _ hl)
    cases texts with
    | nil =>
      rw [List.intercalate_singleton]
      exact lines_of_not_mem hline.newline_not_mem hline.ne_nil
    | cons next texts =>
      have hjoin : ['\n'].intercalate (line :: next :: texts) =
          line ++ '\n' :: ['\n'].intercalate (next :: texts) := by
        rw [List.intercalate_cons_cons, List.append_assoc, List.singleton_append]
      -- no carriage return is taken off the line
      rw [hjoin, lines_append_newline hline.newline_not_mem, hrest]
      unfold dropReturn
      rw [if_neg hline.last]

end Cpu6502.Text
