/-!
# Cutting a text at separators

`pieces` cuts at every separator and keeps empty pieces; `lines` cuts at line feeds, where the last
line needs no line feed of its own.

* `Text.pieces_append_cons`: a separator cuts a text into the pieces of its two sides.
-/

namespace Cpu6502.Text

/-- What stands between the characters that satisfy `isSeparator`: one piece more than there are
separators. -/
def pieces (isSeparator : Char → Bool) (text : List Char) : List (List Char) :=
  text.foldr (fun c rest => if isSeparator c then [] :: rest else rest.modifyHead (c :: ·)) [[]]

section
variable (isSeparator : Char → Bool)

@[simp] theorem pieces_nil : pieces isSeparator [] = [[]] := rfl

theorem pieces_cons (c : Char) (text : List Char) :
    pieces isSeparator (c :: text) =
      if isSeparator c then [] :: pieces isSeparator text
      else (pieces isSeparator text).modifyHead (c :: ·) := rfl

theorem pieces_ne_nil (text : List Char) : pieces isSeparator text ≠ [] := by
  cases text with
  | nil => simp
  | cons c text =>
    rw [pieces_cons]
    split
    · simp
    · have := pieces_ne_nil text
      simpa using this

theorem pieces_append_cons (s t : List Char) {c : Char} (h : isSeparator c) :
    pieces isSeparator (s ++ c :: t) = pieces isSeparator s ++ pieces isSeparator t := by
  induction s with
  | nil => simp [pieces_cons, h]
  | cons d s ih =>
    simp only [List.cons_append, pieces_cons, ih]
    have := pieces_ne_nil isSeparator s
    split
    · simp
    · cases hs : pieces isSeparator s with
      | nil => exact absurd hs this
      | cons p ps => simp

end

/-- The line without the carriage return that may end it. -/
def dropReturn (line : List Char) : List Char :=
  if line.getLast? = some '\r' then line.dropLast else line

/-- The lines of a text. A line feed, or a carriage return and a line feed, ends a line; what
follows the last line feed is a line unless it is empty. -/
def lines (text : List Char) : List (List Char) :=
  let all := pieces (· == '\n') text
  all.dropLast.map dropReturn ++ (all.getLast?.toList.filter (· ≠ []))

end Cpu6502.Text
