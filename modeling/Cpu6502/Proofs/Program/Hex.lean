import Cpu6502.Program.Bytes
import Cpu6502.Proofs.Assembly.Layout

/-! # Lists of hexadecimal bytes

A byte may be written with two digits or, if it is below sixteen, with one; in any case of letters;
with or without `0x` before it. However bytes are written and whatever blanks part them, they are
read back (`bytesOfHex_of_renders`).
-/

namespace Cpu6502

/-! ## Digits -/

namespace Hex

/-- A digit may be written in any case. -/
theorem digit?_toUpper (c : Char) : digit? c.toUpper = digit? c :=
  apply_toUpper (f := digit?) (by decide) c

/-- The digits write the byte: with two digits, or with one that suffices, in any case of
letters. -/
inductive Writes (value : UInt8) (written : List Char) : Prop where
  | two (digits : written.map Char.toUpper = Hex.digits 2 value.toNat)
  | one (small : value.toNat < 16) (digits : written.map Char.toUpper = Hex.digits 1 value.toNat)

variable {value : UInt8} {written : List Char}

theorem byte?_map_toUpper (text : List Char) : byte? (text.map Char.toUpper) = byte? text := by
  match text with
  | [] => rfl
  | [low] =>
    show (digit? low.toUpper).map UInt8.ofNat = _
    rw [digit?_toUpper]
    rfl
  | [high, low] =>
    unfold byte?
    simp only [List.map_cons, List.map_nil, digit?_toUpper]
  | _ :: _ :: _ :: _ => rfl

theorem Writes.byte? (h : Writes value written) : Hex.byte? written = some value := by
  rw [← byte?_map_toUpper]
  cases h with
  | two digits =>
    rw [digits, byte?_digits]
  | one small digits =>
    have hdigit : digit? (digit (value.toNat % 16)) = some value.toNat := by
      rw [Nat.mod_eq_of_lt small, digit?_digit small]
    rw [digits]
    show (digit? (digit (value.toNat % 16))).map UInt8.ofNat = some value
    rw [hdigit, Option.map_some, UInt8.ofNat_toNat]

/-- Only ASCII characters are digits. -/
theorem toNat_lt_of_isDigit {c : Char} (h : isDigit c) : c.toNat < 128 := by
  refine Nat.lt_of_not_le fun hc => ?_
  have hnone : digit? c = none := by
    have hbounds : '9'.val.toNat = 57 ∧ 'f'.val.toNat = 102 ∧ 'F'.val.toNat = 70 := by decide
    have hvalue : c.val.toNat = c.toNat := rfl
    unfold digit?
    simp only [Char.le_def, UInt32.le_iff_toNat_le]
    rw [if_neg (by omega), if_neg (by omega), if_neg (by omega)]
  unfold isDigit at h
  rw [hnone] at h
  cases h

theorem isPlain_of_isDigit {c : Char} (h : isDigit c) : isPlain c := by
  have hc := toNat_lt_of_isDigit h
  revert h
  exact char_of_codes (p := fun c => isDigit c → isPlain c) (by decide) hc

theorem isWord_of_byte? (h : Hex.byte? written = some value) : IsWord written := by
  have hdigit : ∀ {c v}, digit? c = some v → isPlain c := by
    intro c v hc
    apply isPlain_of_isDigit
    unfold isDigit
    rw [hc]
    rfl
  match written with
  | [] => cases h
  | [low] =>
    obtain ⟨v, hlow, -⟩ := Option.map_eq_some_iff.1 h
    exact ⟨List.cons_ne_nil _ _, List.forall_mem_singleton.2 (hdigit hlow)⟩
  | [high, low] =>
    obtain ⟨u, hhigh, h⟩ := Option.bind_eq_some_iff.1 h
    obtain ⟨v, hlow, -⟩ := Option.bind_eq_some_iff.1 h
    exact ⟨List.cons_ne_nil _ _, List.forall_mem_cons.2
      ⟨hdigit hhigh, List.forall_mem_singleton.2 (hdigit hlow)⟩⟩
  | _ :: _ :: _ :: _ => cases h

end Hex

/-! ## Tokens -/

/-- The word writes the byte, perhaps after `0x`. -/
inductive HexToken (value : UInt8) : List Char → Prop where
  | bare {digits : List Char} (writes : Hex.Writes value digits) : HexToken value digits
  | lower {digits : List Char} (writes : Hex.Writes value digits) :
      HexToken value ('0' :: 'x' :: digits)
  | upper {digits : List Char} (writes : Hex.Writes value digits) :
      HexToken value ('0' :: 'X' :: digits)

/-- Digits are not taken for `0x`. -/
theorem hexToken?_of_byte? {value : UInt8} {digits : List Char}
    (h : Hex.byte? digits = some value) : hexToken? digits = some value := by
  have hx : ∀ x rest, Hex.digit? x = none → Hex.byte? ('0' :: x :: rest) = none := by
    intro x rest hx
    cases rest with
    | nil =>
      unfold Hex.byte?
      dsimp only
      rw [hx]
      rfl
    | cons c rest => rfl
  unfold hexToken?
  split
  · next rest =>
    rw [hx 'x' rest rfl] at h
    cases h
  · next rest =>
    rw [hx 'X' rest rfl] at h
    cases h
  · exact h

theorem HexToken.hexToken? {value : UInt8} {token : List Char} (h : HexToken value token) :
    Cpu6502.hexToken? token = some value := by
  cases h with
  | bare writes => exact hexToken?_of_byte? writes.byte?
  | lower writes => exact writes.byte?
  | upper writes => exact writes.byte?

theorem HexToken.isWord {value : UInt8} {token : List Char} (h : HexToken value token) :
    IsWord token := by
  have hprefix : ∀ x digits, isPlain x → IsWord digits → IsWord ('0' :: x :: digits) := by
    intro x digits hx hdigits
    refine ⟨List.cons_ne_nil _ _, ?_⟩
    exact List.forall_mem_cons.2 ⟨by decide, List.forall_mem_cons.2 ⟨hx, hdigits.plain⟩⟩
  cases h with
  | bare writes => exact Hex.isWord_of_byte? writes.byte?
  | lower writes => exact hprefix 'x' _ (by decide) (Hex.isWord_of_byte? writes.byte?)
  | upper writes => exact hprefix 'X' _ (by decide) (Hex.isWord_of_byte? writes.byte?)

/-! ## Lists -/

/-- The text writes the bytes as tokens with blanks between them, and perhaps around them. -/
inductive RendersHex : List UInt8 → List Char → Prop where
  | last {value : UInt8} {before word after : List Char}
      (before_blank : ∀ c ∈ before, Text.isBlank c) (token : HexToken value word)
      (after_blank : ∀ c ∈ after, Text.isBlank c) :
      RendersHex [value] (before ++ (word ++ after))
  | cons {value : UInt8} {bytes : List UInt8} {before word text : List Char} {separator : Char}
      (before_blank : ∀ c ∈ before, Text.isBlank c) (token : HexToken value word)
      (separator_blank : Text.isBlank separator) (rest : RendersHex bytes text) :
      RendersHex (value :: bytes) (before ++ (word ++ separator :: text))

theorem RendersHex.words {bytes : List UInt8} {text : List Char} (h : RendersHex bytes text) :
    (Text.words text).map hexToken? = bytes.map some := by
  induction h with
  | last before_blank token after_blank =>
    rw [Text.words_append_of_blank before_blank, Text.words_append_of_blank_right _ after_blank,
      token.isWord.words, List.map_singleton, token.hexToken?, List.map_singleton]
  | cons before_blank token separator_blank rest ih =>
    rw [Text.words_append_of_blank before_blank, Text.words_append_cons _ _ separator_blank,
      token.isWord.words, List.map_append, ih, List.map_singleton, token.hexToken?]
    rfl

/-- Words that all write bytes are read as these bytes, wherever they are counted from. -/
theorem mapM_zipIdx_words {read : List Char × Nat → Except ProgramError UInt8}
    (hread : ∀ {word byte} index, hexToken? word = some byte → read (word, index) = .ok byte)
    {words : List (List Char)} {bytes : List UInt8} (h : words.map hexToken? = bytes.map some)
    (start : Nat) : (words.zipIdx start).mapM read = .ok bytes := by
  rw [Layout.mapM_eq_ok_iff]
  induction words generalizing bytes start with
  | nil =>
    rw [List.map_eq_nil_iff.1 h.symm]
    rfl
  | cons word words ih =>
    cases bytes with
    | nil => cases h
    | cons byte bytes =>
      obtain ⟨hfirst, hrest⟩ := List.cons.inj h
      rw [List.zipIdx_cons, List.map_cons, List.map_cons, hread start hfirst, ih hrest]

/-- A list of bytes is read from whatever text writes it, unless it is empty. -/
theorem bytesOfHex_of_renders {bytes : List UInt8} {text : String} (hne : bytes ≠ [])
    (h : RendersHex bytes text.toList) : bytesOfHex text = .ok bytes := by
  have hnonEmpty : nonEmpty bytes = .ok bytes := by
    unfold nonEmpty
    rw [if_neg hne]
  unfold bytesOfHex
  rw [mapM_zipIdx_words _ h.words]
  · exact hnonEmpty
  · intro word byte index hword
    dsimp only
    rw [hword]

end Cpu6502
