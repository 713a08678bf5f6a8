import Cpu6502.Json.Basic
import Cpu6502.Proofs.Assembly.Reading

/-! # Strings of JSON

A character of a string is spelled by itself, by a backslash and a letter, or by its code in one
unit or in a pair of surrogates; quotation marks, backslashes and control characters never by
themselves. A string is scanned with its spelling and stands for its characters, and what is written
is such a spelling.

* `Json.Spells.scanString`: the spelling is scanned up to the quotation mark that ends it.
* `Json.Spells.characters?`: it stands for the characters that it spells.
* `Json.spells_flatMap_escape`: every text is written so that it is spelled.
-/

namespace Cpu6502.Json

/-! ## Spellings -/

/-- Holds of a character that may stand for itself in a string. -/
structure IsLiteral (c : Char) : Prop where
  ne_quote : c ≠ '"'
  ne_backslash : c ≠ '\\'
  visible : ¬c < ' '

instance : DecidablePred IsLiteral := fun c =>
  decidable_of_iff (c ≠ '"' ∧ c ≠ '\\' ∧ ¬c < ' ')
    ⟨fun ⟨hquote, hbackslash, hvisible⟩ => ⟨hquote, hbackslash, hvisible⟩,
      fun ⟨hquote, hbackslash, hvisible⟩ => ⟨hquote, hbackslash, hvisible⟩⟩

/-- Holds of a text whose characters may all stand for themselves. -/
def isLiteralText (text : List Char) : Bool :=
  text.all fun c => decide (IsLiteral c)

/-- The number that a unit `\u` followed by these characters stands for, if they are digits. -/
def unit? (a b c d : Char) : Option Nat :=
  if [a, b, c, d].all Hex.isDigit then some (unit a b c d) else none

/-- How characters are spelled in a string. -/
inductive Spells : (spelling content : List Char) → Prop where
  | nil : Spells [] []
  | literal {c : Char} {s t : List Char} (literal : IsLiteral c) (rest : Spells s t) :
      Spells (c :: s) (c :: t)
  | escaped {c : Char} {s t : List Char} (simple : c ∈ Token.simpleEscapes) (rest : Spells s t) :
      Spells ('\\' :: c :: s) (unescape c :: t)
  | unit {a b c d : Char} {code : Nat} {s t : List Char} (digits : unit? a b c d = some code)
      (alone : code < 0xD800 ∨ 0xE000 ≤ code) (rest : Spells s t) :
      Spells ('\\' :: 'u' :: a :: b :: c :: d :: s) (Char.ofNat code :: t)
  | pair {a b c d e f g h : Char} {high low : Nat} {s t : List Char}
      (digits : unit? a b c d = some (0xD800 + high)) (high_lt : high < 0x400)
      (digits' : unit? e f g h = some (0xDC00 + low)) (low_lt : low < 0x400) (rest : Spells s t) :
      Spells ('\\' :: 'u' :: a :: b :: c :: d :: '\\' :: 'u' :: e :: f :: g :: h :: s)
        (Char.ofNat (0x10000 + high * 0x400 + low) :: t)

theorem unit?_eq_some_iff {a b c d : Char} {code : Nat} :
    unit? a b c d = some code ↔ [a, b, c, d].all Hex.isDigit ∧ unit a b c d = code := by
  unfold unit?
  split
  · next h => simp [h]
  · next h => simp [h]

/-! ## One character -/

variable {c : Char} {a b d e f g h : Char} {code : Nat} {text : List Char}

theorem scanString_literal (hc : IsLiteral c) :
    Token.scanString (c :: text) = (Token.scanString text).map fun (s, rest) => (c :: s, rest) := by
  rw [Token.scanString]
  · rw [if_neg hc.visible]
  · exact hc.ne_quote
  · exact fun _ _ _ _ _ h _ => hc.ne_backslash h
  · exact fun _ _ h _ => hc.ne_backslash h

theorem characters?_literal (hc : IsLiteral c) :
    characters? (c :: text) = (characters? text).map (c :: ·) := by
  rw [characters?]
  · exact fun _ _ _ _ _ h _ => hc.ne_backslash h
  · exact fun _ _ h _ => hc.ne_backslash h

theorem ne_u_of_simple (hc : c ∈ Token.simpleEscapes) : c ≠ 'u' := by
  rintro rfl
  exact absurd hc (by decide)

theorem scanString_escaped (hc : c ∈ Token.simpleEscapes) :
    Token.scanString ('\\' :: c :: text) =
      (Token.scanString text).map fun (s, rest) => ('\\' :: c :: s, rest) := by
  rw [Token.scanString]
  · rw [if_pos hc]
  · exact fun _ _ _ _ _ h _ => ne_u_of_simple hc h

theorem characters?_escaped (hc : c ∈ Token.simpleEscapes) :
    characters? ('\\' :: c :: text) = (characters? text).map (unescape c :: ·) := by
  rw [characters?]
  exact fun _ _ _ _ _ h _ => ne_u_of_simple hc h

theorem scanString_unit (digits : unit? a b c d = some code) :
    Token.scanString ('\\' :: 'u' :: a :: b :: c :: d :: text) =
      (Token.scanString text).map fun (s, rest) =>
        ('\\' :: 'u' :: a :: b :: c :: d :: s, rest) := by
  rw [Token.scanString, if_pos (unit?_eq_some_iff.1 digits).1]

theorem characters?_unit (digits : unit? a b c d = some code)
    (alone : code < 0xD800 ∨ 0xE000 ≤ code) :
    characters? ('\\' :: 'u' :: a :: b :: c :: d :: text) =
      (characters? text).map (Char.ofNat code :: ·) := by
  have hunit := (unit?_eq_some_iff.1 digits).2
  rw [characters?.eq_def]
  show (if 0xD800 ≤ unit a b c d ∧ unit a b c d < 0xDC00 then _
    else if 0xDC00 ≤ unit a b c d ∧ unit a b c d < 0xE000 then _ else _) = _
  rw [hunit, if_neg (by omega), if_neg (by omega)]

theorem characters?_pair {high low : Nat} (digits : unit? a b c d = some (0xD800 + high))
    (high_lt : high < 0x400) (digits' : unit? e f g h = some (0xDC00 + low))
    (low_lt : low < 0x400) :
    characters? ('\\' :: 'u' :: a :: b :: c :: d :: '\\' :: 'u' :: e :: f :: g :: h :: text) =
      (characters? text).map (Char.ofNat (0x10000 + high * 0x400 + low) :: ·) := by
  have hcode : 0x10000 + (0xD800 + high - 0xD800) * 0x400 + (0xDC00 + low - 0xDC00) =
      0x10000 + high * 0x400 + low := by omega
  rw [characters?, (unit?_eq_some_iff.1 digits).2, if_pos (by omega),
    (unit?_eq_some_iff.1 digits').2, if_pos (by omega), hcode]

/-! ## Scanning and meaning -/

namespace Spells

variable {spelling spelling' content content' : List Char}

/-- A spelling is scanned up to the quotation mark that ends it. -/
theorem scanString (h : Spells spelling content) (rest : List Char) :
    Token.scanString (spelling ++ '"' :: rest) = some (spelling, rest) := by
  induction h with
  | nil => rfl
  | literal literal h ih =>
    rw [List.cons_append, scanString_literal literal, ih]
    rfl
  | escaped simple h ih =>
    simp only [List.cons_append]
    rw [scanString_escaped simple, ih]
    rfl
  | unit digits alone h ih =>
    simp only [List.cons_append]
    rw [scanString_unit digits, ih]
    rfl
  | pair digits high_lt digits' low_lt h ih =>
    simp only [List.cons_append]
    rw [scanString_unit digits, scanString_unit digits', ih]
    rfl

/-- A spelling stands for what it spells. -/
theorem characters? (h : Spells spelling content) : characters? spelling = some content := by
  induction h with
  | nil => rfl
  | literal literal h ih =>
    rw [characters?_literal literal, ih]
    rfl
  | escaped simple h ih =>
    rw [characters?_escaped simple, ih]
    rfl
  | unit digits alone h ih =>
    rw [characters?_unit digits alone, ih]
    rfl
  | pair digits high_lt digits' low_lt h ih =>
    rw [characters?_pair digits high_lt digits' low_lt, ih]
    rfl

theorem append (h : Spells spelling content) (h' : Spells spelling' content') :
    Spells (spelling ++ spelling') (content ++ content') := by
  induction h with
  | nil => exact h'
  | literal literal h ih => exact .literal literal ih
  | escaped simple h ih => exact .escaped simple ih
  | unit digits alone h ih => exact .unit digits alone ih
  | pair digits high_lt digits' low_lt h ih => exact .pair digits high_lt digits' low_lt ih

/-- A text of characters that may all stand for themselves spells itself. -/
theorem of_isLiteralText (h : isLiteralText content) : Spells content content := by
  induction content with
  | nil => exact .nil
  | cons c content ih =>
    unfold isLiteralText at h
    rw [List.all_cons, Bool.and_eq_true, decide_eq_true_eq] at h
    exact .literal h.1 (ih h.2)

end Spells

theorem exists_spells {key : String} (h : isLiteralText key.toList) :
    ∃ content, Spells key.toList content :=
  ⟨_, .of_isLiteralText h⟩

/-! ## What is written -/

theorem unit?_of_control {c : Char} (hc : c < ' ') :
    unit? '0' '0' (Hex.digit (c.toNat / 16 % 16)).toLower (Hex.digit (c.toNat % 16)).toLower =
      some c.toNat := by
  have hlt : c.toNat < 32 := UInt32.lt_iff_toNat_lt.1 hc
  exact char_of_codes (p := fun c => unit? '0' '0' (Hex.digit (c.toNat / 16 % 16)).toLower
    (Hex.digit (c.toNat % 16)).toLower = some c.toNat) (by decide) hlt

theorem spells_escape (c : Char) : Spells (escape c) [c] := by
  unfold escape
  split
  · exact .escaped (c := '"') (by decide) .nil
  · exact .escaped (c := '\\') (by decide) .nil
  · exact .escaped (c := 'b') (by decide) .nil
  · exact .escaped (c := 'f') (by decide) .nil
  · exact .escaped (c := 'n') (by decide) .nil
  · exact .escaped (c := 'r') (by decide) .nil
  · exact .escaped (c := 't') (by decide) .nil
  · next hquote hbackslash _ _ _ _ _ =>
    split
    · next hcontrol =>
      have hunit := unit?_of_control hcontrol
      have hlt : c.toNat < 32 := UInt32.lt_iff_toNat_lt.1 hcontrol
      have hspells := Spells.unit hunit (.inl (by omega)) .nil
      rw [Char.ofNat_toNat] at hspells
      exact hspells
    · next hvisible => exact .literal ⟨hquote, hbackslash, hvisible⟩ .nil

/-- Every text is written so that it is spelled. -/
theorem spells_flatMap_escape (text : List Char) : Spells (text.flatMap escape) text := by
  induction text with
  | nil => exact .nil
  | cons c text ih => exact (spells_escape c).append ih

end Cpu6502.Json
