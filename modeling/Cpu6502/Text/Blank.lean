import Cpu6502.Text.Pieces

/-!
# Blank space

Blank characters are those with the White_Space property. They are cut from the ends of a text by
`trim` and separate its `words`.

* `Text.words_append_cons`: at a blank, a text falls into the words of its two sides.
-/

namespace Cpu6502.Text

/-- The characters with the White_Space property, as closed ranges of code points. -/
def blankRanges : List (Nat × Nat) :=
  [(0x0009, 0x000D), (0x0020, 0x0020), (0x0085, 0x0085), (0x00A0, 0x00A0), (0x1680, 0x1680),
    (0x2000, 0x200A), (0x2028, 0x2029), (0x202F, 0x202F), (0x205F, 0x205F), (0x3000, 0x3000)]

/-- Holds of the blank characters. -/
def isBlank (c : Char) : Bool :=
  blankRanges.any fun (first, last) => first ≤ c.toNat && c.toNat ≤ last

/-- The text without the blank characters at its start. -/
def trimStart (text : List Char) : List Char :=
  text.dropWhile isBlank

/-- The text without the blank characters at its end. -/
def trimEnd (text : List Char) : List Char :=
  (text.reverse.dropWhile isBlank).reverse

/-- The text without the blank characters at either end. -/
def trim (text : List Char) : List Char :=
  trimEnd (trimStart text)

/-- The maximal runs of characters that are not blank. -/
def words (text : List Char) : List (List Char) :=
  (pieces isBlank text).filter (· ≠ [])

theorem isBlank_of_isWhitespace {c : Char} (h : c.isWhitespace) : isBlank c := by
  simp only [Char.isWhitespace, Bool.or_eq_true, decide_eq_true_eq] at h
  rcases h with ((rfl | rfl) | rfl) | rfl <;> decide

theorem words_append_cons (s t : List Char) {c : Char} (h : isBlank c) :
    words (s ++ c :: t) = words s ++ words t := by
  simp [words, pieces_append_cons isBlank s t h]

/-- There are twenty-five blank characters. -/
example : (blankRanges.map fun (first, last) => last - first + 1).sum = 25 := by decide

end Cpu6502.Text
