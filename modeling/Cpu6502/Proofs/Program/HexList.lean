import Mathlib.Data.List.Forall2
import Cpu6502.Proofs.Program.Numeral
import Cpu6502.Proofs.Text.Blank

/-! # The grammar of byte lists

A list of hexadecimal bytes is read token by token, where the tokens are the runs of characters
that are not blank. A token is a byte if it is a numeral of at most two digits, perhaps after `0x`
or `0X`. The list is refused if it has no tokens, or else at the first token that is no byte.

`HexVerdict` says this without reading anything. Every list of tokens has a verdict
(`exists_hexVerdict`), and the verdict on the tokens of a text is what it is read as
(`HexVerdict.bytesOfHex`), so `bytesOfHex_grammar` says exactly how each text is read.
-/

namespace Cpu6502

/-! ## Tokens -/

/-- The word is a byte in hexadecimal: one or two digits, perhaps after `0x` or `0X`. -/
def IsHexByte (word : List Char) (byte : UInt8) : Prop :=
  ∃ mark ∈ ["", "0x", "0X"], ∃ digits, word = mark.toList ++ digits ∧ Hex.IsNumeral digits ∧
    digits.length ≤ 2 ∧ Hex.value digits = byte.toNat

theorem hexToken?_eq_some_iff {word : List Char} {byte : UInt8} :
    hexToken? word = some byte ↔ IsHexByte word byte := by
  constructor
  · intro h
    unfold hexToken? at h
    split at h
    · exact ⟨"0x", by decide, _, rfl, Hex.byte?_eq_some_iff.1 h⟩
    · exact ⟨"0X", by decide, _, rfl, Hex.byte?_eq_some_iff.1 h⟩
    · exact ⟨"", by decide, _, rfl, Hex.byte?_eq_some_iff.1 h⟩
  · rintro ⟨mark, hmark, digits, rfl, hdigits⟩
    have hbyte := Hex.byte?_eq_some_iff.2 hdigits
    simp only [List.mem_cons, List.not_mem_nil, or_false] at hmark
    rcases hmark with rfl | rfl | rfl
    · exact hexToken?_of_byte? hbyte
    · exact hbyte
    · exact hbyte

theorem hexToken?_eq_none_iff {word : List Char} :
    hexToken? word = none ↔ ∀ byte, ¬IsHexByte word byte := by
  rw [Option.eq_none_iff_forall_ne_some]
  simp only [ne_eq, hexToken?_eq_some_iff]

theorem map_hexToken?_iff {words : List (List Char)} {bytes : List UInt8} :
    words.map hexToken? = bytes.map some ↔ List.Forall₂ IsHexByte words bytes := by
  rw [← List.forall₂_eq_eq_eq, List.forall₂_map_left_iff, List.forall₂_map_right_iff]
  simp only [hexToken?_eq_some_iff]

/-! ## Verdicts -/

/-- What a list of tokens is read as. -/
inductive HexVerdict (tokens : List (List Char)) : Except ProgramError (List UInt8) → Prop where
  | bytes {bytes : List UInt8} (ne_nil : tokens ≠ [])
      (each : List.Forall₂ IsHexByte tokens bytes) : HexVerdict tokens (.ok bytes)
  | empty (none : tokens = []) : HexVerdict tokens (.error .empty)
  /-- The token is no byte, and all those before it are. -/
  | invalidToken {before after : List (List Char)} {token : List Char}
      (split : tokens = before ++ token :: after)
      (before_bytes : ∀ word ∈ before, ∃ byte, IsHexByte word byte)
      (no_byte : ∀ byte, ¬IsHexByte token byte) :
      HexVerdict tokens (.error (.invalidToken before.length (String.ofList token)))

theorem exists_forall₂_of_forall {words : List (List Char)}
    (h : ∀ word ∈ words, ∃ byte, IsHexByte word byte) :
    ∃ bytes, List.Forall₂ IsHexByte words bytes := by
  induction words with
  | nil => exact ⟨[], .nil⟩
  | cons word words ih =>
    obtain ⟨⟨byte, hbyte⟩, hrest⟩ := List.forall_mem_cons.1 h
    obtain ⟨bytes, hbytes⟩ := ih hrest
    exact ⟨byte :: bytes, .cons hbyte hbytes⟩

/-- If some token is no byte, there is a first one. -/
theorem exists_hexVerdict (tokens : List (List Char)) : ∃ result, HexVerdict tokens result := by
  cases hfind : tokens.find? fun word => (hexToken? word).isNone with
  | none =>
    by_cases hnone : tokens = []
    · exact ⟨_, .empty hnone⟩
    · have hall : ∀ word ∈ tokens, ∃ byte, IsHexByte word byte := by
        intro word hword
        have hsome := List.find?_eq_none.1 hfind word hword
        rw [Option.isNone_iff_eq_none] at hsome
        obtain ⟨byte, hbyte⟩ := Option.ne_none_iff_exists'.1 hsome
        exact ⟨byte, hexToken?_eq_some_iff.1 hbyte⟩
      obtain ⟨bytes, hbytes⟩ := exists_forall₂_of_forall hall
      exact ⟨_, .bytes hnone hbytes⟩
  | some token =>
    obtain ⟨htoken, before, after, hsplit, hbefore⟩ := List.find?_eq_some_iff_append.1 hfind
    rw [Option.isNone_iff_eq_none] at htoken
    refine ⟨_, .invalidToken hsplit ?_ (hexToken?_eq_none_iff.1 htoken)⟩
    intro word hword
    have hsome := hbefore word hword
    rw [Bool.not_eq_true', Option.isNone_eq_false_iff] at hsome
    obtain ⟨byte, hbyte⟩ := Option.isSome_iff_exists.1 hsome
    exact ⟨byte, hexToken?_eq_some_iff.1 hbyte⟩

section

variable {read : List Char × Nat → Except ProgramError UInt8}

/-- Reading stops at the first word that is no byte. -/
theorem mapM_zipIdx_of_invalid
    (hread : ∀ {word byte} index, hexToken? word = some byte → read (word, index) = .ok byte)
    (hrefuse : ∀ {word} index, hexToken? word = none →
      read (word, index) = .error (.invalidToken index (String.ofList word)))
    {before after : List (List Char)} {token : List Char} {bytes : List UInt8}
    (hbefore : before.map hexToken? = bytes.map some) (htoken : hexToken? token = none)
    (start : Nat) :
    ((before ++ token :: after).zipIdx start).mapM read =
      .error (.invalidToken (start + before.length) (String.ofList token)) := by
  rw [List.zipIdx_append, List.mapM_append, mapM_zipIdx_words hread hbefore, List.zipIdx_cons,
    List.mapM_cons, hrefuse _ htoken]
  rfl

end

/-- A text is read as the verdict on its words says. -/
theorem HexVerdict.bytesOfHex {text : String} {result : Except ProgramError (List UInt8)}
    (h : HexVerdict (Text.words text.toList) result) : Cpu6502.bytesOfHex text = result := by
  unfold Cpu6502.bytesOfHex
  cases h with
  | @bytes bytes ne_nil each =>
    have hbytes : bytes ≠ [] := by
      rintro rfl
      exact ne_nil (List.forall₂_nil_right_iff.1 each)
    rw [mapM_zipIdx_words _ (map_hexToken?_iff.2 each)]
    · show nonEmpty bytes = .ok bytes
      unfold nonEmpty
      rw [if_neg hbytes]
    · intro word byte index hword
      dsimp only
      rw [hword]
  | empty none =>
    rw [none]
    rfl
  | invalidToken split before_bytes no_byte =>
    obtain ⟨bytes, hbytes⟩ := exists_forall₂_of_forall before_bytes
    rw [split, mapM_zipIdx_of_invalid _ _ (map_hexToken?_iff.2 hbytes)
      (hexToken?_eq_none_iff.2 no_byte), Nat.zero_add]
    · rfl
    · intro word byte index hword
      dsimp only
      rw [hword]
    · intro word index hword
      dsimp only
      rw [hword]

theorem hexVerdict_iff {text : String} {result : Except ProgramError (List UInt8)} :
    bytesOfHex text = result ↔ HexVerdict (Text.words text.toList) result := by
  constructor
  · rintro rfl
    obtain ⟨result, h⟩ := exists_hexVerdict (Text.words text.toList)
    rwa [h.bytesOfHex]
  · intro h
    exact h.bytesOfHex

theorem RendersHex.ne_nil {bytes : List UInt8} {text : List Char} (h : RendersHex bytes text) :
    bytes ≠ [] := by
  cases h with
  | last before_blank token after_blank => exact List.cons_ne_nil _ _
  | cons before_blank token separator_blank rest => exact List.cons_ne_nil _ _

/-- Lists with blanks between them are read as one list. -/
theorem bytesOfHex_append {s t : String} {gap : List Char} {bytes bytes' : List UInt8}
    (h : bytesOfHex s = .ok bytes) (h' : bytesOfHex t = .ok bytes') (hne : gap ≠ [])
    (hgap : ∀ c ∈ gap, Text.isBlank c) :
    bytesOfHex (s ++ String.ofList gap ++ t) = .ok (bytes ++ bytes') := by
  have hwords : Text.words (s ++ String.ofList gap ++ t).toList =
      Text.words s.toList ++ Text.words t.toList := by
    cases gap with
    | nil => exact absurd rfl hne
    | cons c gap =>
      obtain ⟨hc, hgap⟩ := List.forall_mem_cons.1 hgap
      have htext : (s ++ String.ofList (c :: gap) ++ t).toList =
          s.toList ++ c :: (gap ++ t.toList) := by
        simp
      rw [htext, Text.words_append_cons _ _ hc, Text.words_append_of_blank hgap]
  rw [hexVerdict_iff] at h h' ⊢
  rw [hwords]
  cases h with
  | bytes ne_nil each =>
    cases h' with
    | bytes ne_nil' each' =>
      refine .bytes ?_ (List.rel_append each each')
      intro hnone
      exact ne_nil (List.append_eq_nil_iff.1 hnone).1

/-- Every text is read as the verdict on its tokens says, where the tokens are the runs of
characters that are not blank. So bytes are read from whatever text writes them, and from two lists
with blanks between them as from the two. -/
theorem bytesOfHex_grammar :
    (∀ text : String, ∃ tokens,
      (∀ tokens', Text.Runs text.toList tokens' ↔ tokens' = tokens) ∧
        ∀ result, bytesOfHex text = result ↔ HexVerdict tokens result) ∧
    (∀ (bytes : List UInt8) (text : String), RendersHex bytes text.toList →
      bytesOfHex text = .ok bytes) ∧
    ∀ (s t : String) (gap : List Char) (bytes bytes' : List UInt8), bytesOfHex s = .ok bytes →
      bytesOfHex t = .ok bytes' → gap ≠ [] → (∀ c ∈ gap, Text.isBlank c) →
        bytesOfHex (s ++ String.ofList gap ++ t) = .ok (bytes ++ bytes') := by
  refine ⟨?_, ?_, ?_⟩
  · intro text
    refine ⟨Text.words text.toList, ?_, ?_⟩
    · intro tokens
      exact Text.runs_iff
    · intro result
      exact hexVerdict_iff
  · intro bytes text h
    exact bytesOfHex_of_renders h.ne_nil h
  · intro s t gap bytes bytes' h h' hne hgap
    exact bytesOfHex_append h h' hne hgap

theorem renders_spaced : RendersHex [0x0A, 0x07, 0xFF] "0Xa 7\u2003\tFf".toList := by
  show RendersHex [0x0A, 0x07, 0xFF]
    ([] ++ (['0', 'X', 'a'] ++ ' ' :: ([] ++ (['7'] ++ '\u2003' ::
      (['\t'] ++ (['F', 'f'] ++ []))))))
  refine .cons nofun (.upper (.one (by decide) (by decide))) (by decide) ?_
  refine .cons nofun (.bare (.one (by decide) (by decide))) (by decide) ?_
  exact .last (List.forall_mem_singleton.2 (by decide)) (.bare (.two (by decide))) nofun

theorem bytesOfHex_grammar_of_spaced :
    bytesOfHex "0Xa 7\u2003\tFf" = .ok [0x0A, 0x07, 0xFF] ∧
      bytesOfHex ("0Xa 7\u2003\tFf" ++ String.ofList ['\n'] ++ "0Xa 7\u2003\tFf") =
        .ok [0x0A, 0x07, 0xFF, 0x0A, 0x07, 0xFF] := by
  obtain ⟨-, hrenders, happend⟩ := bytesOfHex_grammar
  have hread := hrenders _ _ renders_spaced
  refine ⟨hread, ?_⟩
  have hgap : ∀ c ∈ ['\n'], Text.isBlank c := List.forall_mem_singleton.2 (by decide)
  exact happend _ _ _ _ _ hread hread (by decide) hgap

end Cpu6502
