import Mathlib.Data.List.TakeWhile
import Mathlib.Data.Nat.Digits.Defs
import Cpu6502.Proofs.Program.Hex
import Cpu6502.Text.Number

/-! # Hexadecimal numerals

A numeral is a text of one or more hexadecimal digits, however many zeros it begins with, and stands
for a number by the places of its digits. What is read as a byte is a numeral of at most two digits
(`Hex.byte?_eq_some_iff`). What is read as a number within a bound is a numeral, perhaps after a
plus sign, and where there is none, the digits in front decide why (`Number.read_eq`).
-/

namespace Cpu6502

namespace Hex

/-! ## Digits and their places -/

/-- The hexadecimal digits in upper case, in the order of their values. -/
def numerals : List Char :=
  ['0', '1', '2', '3', '4', '5', '6', '7', '8', '9', 'A', 'B', 'C', 'D', 'E', 'F']

/-- Holds of one or more hexadecimal digits in any case of letters. -/
structure IsNumeral (text : List Char) : Prop where
  ne_nil : text ≠ []
  digits : ∀ c ∈ text, c.toUpper ∈ numerals

/-- The number that digits stand for, the highest of them first. -/
def value (text : List Char) : Nat :=
  Nat.ofDigits 16 (text.reverse.map fun c => numerals.idxOf c.toUpper)

/-- The digits that a text begins with. -/
def leading (text : List Char) : List Char :=
  text.takeWhile (·.toUpper ∈ numerals)

variable {text : List Char} {c : Char}

theorem idxOf_lt (h : c.toUpper ∈ numerals) : numerals.idxOf c.toUpper < 16 :=
  List.idxOf_lt_length_of_mem h

@[simp] theorem value_nil : value [] = 0 := rfl

theorem value_cons (c : Char) (text : List Char) :
    value (c :: text) = numerals.idxOf c.toUpper * 16 ^ text.length + value text := by
  unfold value
  rw [List.reverse_cons, List.map_append, Nat.ofDigits_append, List.map_singleton,
    Nat.ofDigits_singleton, List.length_map, List.length_reverse]
  ring

@[simp] theorem leading_nil : leading [] = [] := rfl

theorem leading_cons_of_mem (h : c.toUpper ∈ numerals) (text : List Char) :
    leading (c :: text) = c :: leading text :=
  List.takeWhile_cons_of_pos (by simpa using h)

theorem leading_cons_of_not_mem (h : c.toUpper ∉ numerals) (text : List Char) :
    leading (c :: text) = [] :=
  List.takeWhile_cons_of_neg (by simpa using h)

@[simp] theorem not_isNumeral_nil : ¬IsNumeral [] := by
  intro h
  exact h.ne_nil rfl

/-- A numeral begins with nothing but digits. -/
theorem isNumeral_iff : IsNumeral text ↔ text ≠ [] ∧ leading text = text := by
  have hleading : leading text = text ↔ ∀ c ∈ text, c.toUpper ∈ numerals := by
    unfold leading
    simp [List.takeWhile_eq_self_iff]
  rw [hleading]
  constructor
  · rintro ⟨hne, hdigits⟩
    exact ⟨hne, hdigits⟩
  · rintro ⟨hne, hdigits⟩
    exact ⟨hne, hdigits⟩

instance (text : List Char) : Decidable (IsNumeral text) :=
  decidable_of_iff _ isNumeral_iff.symm

theorem IsNumeral.leading_eq (h : IsNumeral text) : leading text = text :=
  (isNumeral_iff.1 h).2

theorem IsNumeral.not_isPrefix {rest : List Char} (h : IsNumeral text)
    (hc : c.toUpper ∉ numerals) : ¬(c :: rest) <+: text := by
  intro hbegins
  exact hc (h.digits c (hbegins.subset List.mem_cons_self))

theorem IsNumeral.value_lt (h : IsNumeral text) : value text < 16 ^ text.length := by
  have hlt := Nat.ofDigits_lt_base_pow_length (b := 16)
    (l := text.reverse.map fun c => numerals.idxOf c.toUpper) (by decide) ?_
  · rwa [List.length_map, List.length_reverse] at hlt
  · intro digit hdigit
    obtain ⟨c, hc, rfl⟩ := List.mem_map.1 hdigit
    exact idxOf_lt (h.digits c (List.mem_reverse.1 hc))

/-- The value of a digit is its position among the digits. -/
theorem digit?_eq (c : Char) :
    digit? c = if c.toUpper ∈ numerals then some (numerals.idxOf c.toUpper) else none := by
  by_cases hc : c.toNat < 128
  · exact char_of_codes (p := fun c => digit? c =
      if c.toUpper ∈ numerals then some (numerals.idxOf c.toUpper) else none) (by decide) hc
  · -- what is no ASCII character is no digit in either case
    have hnone : digit? c = none := by
      rw [← Option.not_isSome_iff_eq_none]
      intro hdigit
      exact hc (toNat_lt_of_isDigit hdigit)
    have hmem : c.toUpper ∉ numerals := by
      intro hmem
      have hall : numerals.all fun u => (digit? u).isSome := by decide
      have hupper := List.all_eq_true.1 hall _ hmem
      rw [digit?_toUpper, hnone] at hupper
      cases hupper
    rw [if_neg hmem, hnone]

theorem digit?_of_mem (h : c.toUpper ∈ numerals) :
    digit? c = some (numerals.idxOf c.toUpper) := by
  rw [digit?_eq, if_pos h]

theorem mem_of_digit? {digit : Nat} (h : digit? c = some digit) : c.toUpper ∈ numerals := by
  by_contra hc
  rw [digit?_eq, if_neg hc] at h
  cases h

/-! ## Bytes -/

theorem byte?_of_isNumeral (h : IsNumeral text) (hlength : text.length ≤ 2) :
    byte? text = some (UInt8.ofNat (value text)) := by
  obtain ⟨hne, hdigits⟩ := h
  match text with
  | [] => exact absurd rfl hne
  | [low] =>
    rw [List.forall_mem_singleton] at hdigits
    unfold byte?
    dsimp only
    rw [digit?_of_mem hdigits, value_cons, List.length_nil, Nat.pow_zero, Nat.mul_one]
    rfl
  | [high, low] =>
    obtain ⟨hhigh, hlow⟩ := List.forall_mem_cons.1 hdigits
    rw [List.forall_mem_singleton] at hlow
    unfold byte?
    dsimp only
    rw [digit?_of_mem hhigh, digit?_of_mem hlow, value_cons, value_cons, List.length_singleton,
      List.length_nil, Nat.pow_zero, Nat.pow_one, Nat.mul_one, Nat.mul_comm]
    rfl
  | _ :: _ :: _ :: rest =>
    simp only [List.length_cons] at hlength
    omega

theorem isNumeral_of_byte? {byte : UInt8} (h : byte? text = some byte) :
    IsNumeral text ∧ text.length ≤ 2 := by
  match text with
  | [] => cases h
  | [low] =>
    obtain ⟨digit, hlow, -⟩ := Option.map_eq_some_iff.1 h
    have hdigits : ∀ c ∈ [low], c.toUpper ∈ numerals :=
      List.forall_mem_singleton.2 (mem_of_digit? hlow)
    exact ⟨⟨List.cons_ne_nil _ _, hdigits⟩, Nat.le_succ 1⟩
  | [high, low] =>
    obtain ⟨digit, hhigh, h⟩ := Option.bind_eq_some_iff.1 h
    obtain ⟨digit', hlow, -⟩ := Option.bind_eq_some_iff.1 h
    have hdigits : ∀ c ∈ [high, low], c.toUpper ∈ numerals := List.forall_mem_cons.2
      ⟨mem_of_digit? hhigh, List.forall_mem_singleton.2 (mem_of_digit? hlow)⟩
    exact ⟨⟨List.cons_ne_nil _ _, hdigits⟩, Nat.le_refl 2⟩
  | _ :: _ :: _ :: _ => cases h

/-- A byte is read from a numeral of one or two digits. -/
theorem byte?_eq_some_iff {byte : UInt8} :
    byte? text = some byte ↔ IsNumeral text ∧ text.length ≤ 2 ∧ value text = byte.toNat := by
  constructor
  · intro h
    obtain ⟨hnumeral, hlength⟩ := isNumeral_of_byte? h
    refine ⟨hnumeral, hlength, ?_⟩
    have hlt : value text < 256 :=
      Nat.lt_of_lt_of_le hnumeral.value_lt (Nat.pow_le_pow_right (by decide) hlength)
    rw [byte?_of_isNumeral hnumeral hlength, Option.some.injEq] at h
    rw [← h]
    exact (UInt8.toNat_ofNat_of_lt hlt).symm
  · rintro ⟨hnumeral, hlength, hvalue⟩
    rw [byte?_of_isNumeral hnumeral hlength, hvalue, UInt8.ofNat_toNat]

end Hex

/-! ## Marks in front -/

namespace Text

/-- The text without the first of the marks that it begins with, if it begins with any. -/
def withoutFirst : (marks : List String) → List Char → List Char
  | [], text => text
  | mark :: marks, text =>
    if mark.toList <+: text then text.drop mark.toList.length else withoutFirst marks text

variable {mark : String} {marks : List String} {text rest : List Char}

theorem withoutFirst_append (h : text = mark.toList ++ rest) :
    withoutFirst (mark :: marks) text = rest := by
  unfold withoutFirst
  rw [if_pos ⟨rest, h.symm⟩, h, List.drop_left]

theorem withoutFirst_of_ne_append (h : ∀ rest, text ≠ mark.toList ++ rest) :
    withoutFirst (mark :: marks) text = withoutFirst marks text := by
  rw [withoutFirst, if_neg]
  rintro ⟨rest, hrest⟩
  exact h rest hrest.symm

/-- From a text that begins with no mark, whatever was put in front of it is taken away again, be it
the mark or nothing. -/
theorem withoutFirst_append_of_mem {found : String} (hfound : found ∈ ["", mark])
    (h : ¬mark.toList <+: rest) : withoutFirst [mark] (found.toList ++ rest) = rest := by
  simp only [List.mem_cons, List.not_mem_nil, or_false] at hfound
  rcases hfound with rfl | rfl
  · rw [String.toList_empty, List.nil_append, withoutFirst, if_neg h, withoutFirst]
  · exact withoutFirst_append rfl

/-- If a text has a mark, it is the mark and what is left without it. -/
theorem exists_append_withoutFirst (marks : List String) (text : List Char) :
    ∃ mark ∈ "" :: marks, text = mark.toList ++ withoutFirst marks text := by
  induction marks with
  | nil => exact ⟨"", List.mem_cons_self, rfl⟩
  | cons mark marks ih =>
    by_cases hmark : mark.toList <+: text
    · obtain ⟨rest, hrest⟩ := hmark
      refine ⟨mark, List.mem_cons_of_mem _ List.mem_cons_self, ?_⟩
      rw [withoutFirst_append hrest.symm, hrest]
    · obtain ⟨found, hfound, htext⟩ := ih
      refine ⟨found, ?_, ?_⟩
      · rcases List.mem_cons.1 hfound with rfl | hfound
        · exact List.mem_cons_self
        · exact List.mem_cons_of_mem _ (List.mem_cons_of_mem _ hfound)
      · rw [withoutFirst, if_neg hmark]
        exact htext

end Text

/-! ## Numbers within a bound -/

namespace Number

variable {bound : Nat} {text : List Char}

/-- What stands after the sign that a number may have. -/
def unsigned (text : List Char) : List Char :=
  Text.withoutFirst ["+"] text

/-- The digits that a text begins with decide how it is read on: their number may exceed the bound,
and if it does not, nothing may follow them. -/
theorem readDigits_eq {start : Nat} (h : start ≤ bound) (text : List Char) :
    let total := start * 16 ^ (Hex.leading text).length + Hex.value (Hex.leading text)
    readDigits 16 bound start text =
      if bound < total then .error .tooLarge
      else if Hex.leading text = text then .ok total else .error .invalidDigit := by
  induction text generalizing start with
  | nil => simp [readDigits, h]
  | cons c text ih =>
    intro total
    unfold readDigits digit?
    rw [Hex.digit?_eq]
    by_cases hc : c.toUpper ∈ Hex.numerals
    · have hlt := Hex.idxOf_lt hc
      have htotal : total = (start * 16 + Hex.numerals.idxOf c.toUpper) *
          16 ^ (Hex.leading text).length + Hex.value (Hex.leading text) := by
        show start * 16 ^ (Hex.leading (c :: text)).length + _ = _
        rw [Hex.leading_cons_of_mem hc, Hex.value_cons, List.length_cons]
        ring
      -- further digits only make the number larger
      have hle : start * 16 + Hex.numerals.idxOf c.toUpper ≤ total := by
        rw [htotal]
        exact Nat.le_add_right_of_le (Nat.le_mul_of_pos_right _ (Nat.pow_pos (by decide)))
      rw [if_pos hc, Option.filter_some_pos (by simpa using hlt), Hex.leading_cons_of_mem hc]
      dsimp only
      by_cases hbound : bound < start * 16 + Hex.numerals.idxOf c.toUpper
      · rw [if_pos hbound, if_pos (by omega)]
      · rw [if_neg hbound, ih (by omega), ← htotal]
        simp
    · have htotal : total = start := by
        show start * 16 ^ (Hex.leading (c :: text)).length + _ = _
        rw [Hex.leading_cons_of_not_mem hc]
        simp
      rw [if_neg hc, htotal, if_neg (by omega), Hex.leading_cons_of_not_mem hc]
      simp

/-- A number is read from what stands after the sign, unless that is nothing. -/
theorem read_eq_readDigits (bound : Nat) (text : List Char) :
    read 16 bound text =
      if text = [] then .error .empty
      else if unsigned text = [] then .error .invalidDigit
      else readDigits 16 bound 0 (unsigned text) := by
  unfold read
  split
  · rfl
  · rfl
  · next rest hne =>
    have hrest : unsigned ('+' :: rest) = rest := Text.withoutFirst_append rfl
    rw [hrest, if_neg (List.cons_ne_nil _ _), if_neg]
    rintro rfl
    exact hne rfl
  · next hne _ hplus =>
    have hsame : unsigned text = text := Text.withoutFirst_of_ne_append hplus
    rw [hsame, if_neg hne, if_neg hne]

/-- A number is read from a numeral within the bound, perhaps after a plus sign. -/
theorem read_eq (bound : Nat) (text : List Char) :
    read 16 bound text =
      if text = [] then .error .empty
      else if bound < Hex.value (Hex.leading (unsigned text)) then .error .tooLarge
      else if Hex.IsNumeral (unsigned text) then .ok (Hex.value (unsigned text))
      else .error .invalidDigit := by
  rw [read_eq_readDigits]
  by_cases hempty : text = []
  · rw [if_pos hempty, if_pos hempty]
  rw [if_neg hempty, if_neg hempty]
  by_cases hnone : unsigned text = []
  · -- a sign alone begins with no digits, and is no numeral
    rw [if_pos hnone, hnone, Hex.leading_nil, Hex.value_nil, if_neg (Nat.not_lt_zero bound),
      if_neg Hex.not_isNumeral_nil]
  · rw [if_neg hnone, readDigits_eq (Nat.zero_le bound), Nat.zero_mul, Nat.zero_add]
    by_cases hall : Hex.leading (unsigned text) = unsigned text
    · rw [if_pos hall, if_pos (Hex.isNumeral_iff.2 ⟨hnone, hall⟩), hall]
    · have hnumeral : ¬Hex.IsNumeral (unsigned text) := by
        intro hnumeral
        exact hall hnumeral.leading_eq
      rw [if_neg hall, if_neg hnumeral]

theorem unsigned_nil : unsigned [] = [] := rfl

theorem read_eq_ok_iff {n : Nat} :
    read 16 bound text = .ok n ↔ Hex.IsNumeral (unsigned text) ∧
      Hex.value (unsigned text) ≤ bound ∧ Hex.value (unsigned text) = n := by
  rw [read_eq]
  split_ifs with hempty hlarge hnumeral
  · simp [hempty, unsigned_nil]
  · constructor
    · intro h
      cases h
    · rintro ⟨hnumeral, hle, -⟩
      rw [hnumeral.leading_eq] at hlarge
      omega
  · rw [hnumeral.leading_eq] at hlarge
    simp [hnumeral, Nat.le_of_not_lt hlarge]
  · simp [hnumeral]

theorem read_eq_empty_iff : read 16 bound text = .error .empty ↔ text = [] := by
  rw [read_eq]
  split_ifs with hempty hlarge hnumeral <;> simp [hempty]

theorem read_eq_tooLarge_iff :
    read 16 bound text = .error .tooLarge ↔
      bound < Hex.value (Hex.leading (unsigned text)) := by
  rw [read_eq]
  split_ifs with hempty hlarge hnumeral
  · simp [hempty, unsigned_nil]
  · simp [hlarge]
  · simp [hlarge]
  · simp [hlarge]

/-- What is neither a number nor empty, and does not begin with too large a number, has a character
that is no digit. -/
theorem read_eq_invalidDigit_iff :
    read 16 bound text = .error .invalidDigit ↔
      ¬(Hex.IsNumeral (unsigned text) ∧ Hex.value (unsigned text) ≤ bound) ∧ text ≠ [] ∧
        ¬bound < Hex.value (Hex.leading (unsigned text)) := by
  rw [read_eq]
  split_ifs with hempty hlarge hnumeral
  · simp [hempty]
  · simp [hlarge]
  · rw [hnumeral.leading_eq] at hlarge
    simp [hnumeral, Nat.le_of_not_lt hlarge]
  · simp [hempty, hlarge, hnumeral]

theorem word_eq_error_iff {cause : NumberError} :
    Number.word text = .error cause ↔ read 16 0xFFFF text = .error cause := by
  unfold word
  cases read 16 0xFFFF text with
  | ok n => simp [Except.map]
  | error e => simp [Except.map]

/-- A word is read from a numeral that stands for it, perhaps after a plus sign. -/
theorem word_eq_ok_iff {word : UInt16} :
    Number.word text = .ok word ↔
      Hex.IsNumeral (unsigned text) ∧ Hex.value (unsigned text) = word.toNat := by
  have hword : Number.word text = .ok word ↔ read 16 0xFFFF text = .ok word.toNat := by
    unfold Number.word
    constructor
    · intro h
      cases hread : read 16 0xFFFF text with
      | error e =>
        rw [hread] at h
        cases h
      | ok n =>
        obtain ⟨-, hle, hvalue⟩ := read_eq_ok_iff.1 hread
        rw [hread] at h
        cases h
        rw [UInt16.toNat_ofNat', Nat.mod_eq_of_lt (by omega)]
    · intro h
      rw [h]
      show Except.ok (UInt16.ofNat word.toNat) = _
      rw [UInt16.ofNat_toNat]
  have hlt := word.toNat_lt
  rw [hword, read_eq_ok_iff]
  constructor
  · rintro ⟨hnumeral, -, hvalue⟩
    exact ⟨hnumeral, hvalue⟩
  · rintro ⟨hnumeral, hvalue⟩
    exact ⟨hnumeral, by omega, hvalue⟩

end Number

end Cpu6502
