import Cpu6502.Program.Address
import Cpu6502.Proofs.Program.Numeral

/-! # The grammar of addresses

An address is a numeral of at most `FFFF`. A plus sign may stand in front of it, and in front of
that a dollar sign, `0x` or `0X`. What is no address is refused for one of three reasons, and the
digits that the text begins with decide which (`addressOfText_classified`).
-/

namespace Cpu6502

/-- The mark of an address is the first of the three that it begins with. -/
theorem addressDigits_eq (text : List Char) :
    addressDigits text = Text.withoutFirst ["$", "0x", "0X"] text := by
  unfold addressDigits
  split
  · simp [Text.withoutFirst]
  · simp [Text.withoutFirst]
  · simp [Text.withoutFirst]
  · next hdollar hlower hupper =>
    rw [Text.withoutFirst_of_ne_append hdollar, Text.withoutFirst_of_ne_append hlower,
      Text.withoutFirst_of_ne_append hupper]
    rfl

/-- The wording with which a text that is no address is refused. -/
def addressRefusal (text reason : String) : String :=
  "invalid address " ++ Text.quoted text ++ ": " ++ reason

theorem AddressError.message_eq (text : String) (cause : NumberError) :
    AddressError.message ⟨text, cause⟩ = addressRefusal text cause.message := by
  unfold AddressError.message addressRefusal
  simp [toString]

theorem NumberError.message_inj {cause cause' : NumberError}
    (h : cause.message = cause'.message) : cause = cause' := by
  cases cause <;> cases cause' <;> first | rfl | exact absurd h (by decide)

/-- A refusal tells its reason. -/
theorem addressRefusal_inj {text : String} {cause cause' : NumberError} :
    addressRefusal text cause.message = addressRefusal text cause'.message ↔ cause = cause' := by
  constructor
  · intro h
    exact NumberError.message_inj ((String.append_right_inj _).1 h)
  · rintro rfl
    rfl

theorem addressOfText_eq_ok_iff {text : String} {address : UInt16} :
    addressOfText text = .ok address ↔ Number.word (addressDigits text.toList) = .ok address := by
  unfold addressOfText
  cases Number.word (addressDigits text.toList) with
  | ok word => simp [Except.mapError]
  | error cause => simp [Except.mapError]

theorem addressOfText_refused_iff (text : String) (cause : NumberError) :
    (addressOfText text).mapError AddressError.message =
        .error (addressRefusal text cause.message) ↔
      Number.read 16 0xFFFF (addressDigits text.toList) = .error cause := by
  rw [← Number.word_eq_error_iff]
  unfold addressOfText
  cases Number.word (addressDigits text.toList) with
  | ok word => simp [Except.mapError]
  | error cause' => simp [Except.mapError, AddressError.message_eq, addressRefusal_inj]

/-- A text is read as an address if, without a mark and a sign, it is a numeral of at most `FFFF`,
with whatever zeros in front. Any other text is refused, and the refusal names it and says whether
there are no digits at all, the digits in front are too large a number, or, in all other cases,
something else stands among them. -/
theorem addressOfText_classified (text : String) :
    let digits := Text.withoutFirst ["$", "0x", "0X"] text.toList
    let unsigned := Text.withoutFirst ["+"] digits
    let outcome := (addressOfText text).mapError AddressError.message
    let isAddress := Hex.IsNumeral unsigned ∧ Hex.value unsigned ≤ 0xFFFF
    let isTooLarge := 0xFFFF < Hex.value (Hex.leading unsigned)
    ((∃ address, outcome = .ok address) ↔ isAddress) ∧
    (∀ address, outcome = .ok address ↔
      Hex.IsNumeral unsigned ∧ Hex.value unsigned = address.toNat) ∧
    (outcome = .error (addressRefusal text "cannot parse integer from empty string") ↔
      digits = []) ∧
    (outcome = .error (addressRefusal text "number too large to fit in target type") ↔
      isTooLarge) ∧
    (outcome = .error (addressRefusal text "invalid digit found in string") ↔
      ¬isAddress ∧ digits ≠ [] ∧ ¬isTooLarge) := by
  intro digits unsigned outcome isAddress isTooLarge
  have hok (address : UInt16) : outcome = .ok address ↔
      Hex.IsNumeral unsigned ∧ Hex.value unsigned = address.toNat := by
    have hword : addressOfText text = .ok address ↔ _ :=
      addressOfText_eq_ok_iff.trans Number.word_eq_ok_iff
    rw [addressDigits_eq] at hword
    refine Iff.trans ?_ hword
    show (addressOfText text).mapError AddressError.message = _ ↔ _
    cases addressOfText text with
    | ok word => simp [Except.mapError]
    | error refusal => simp [Except.mapError]
  have hrefused := addressOfText_refused_iff text
  rw [addressDigits_eq] at hrefused
  refine ⟨?_, ?_, ?_, ?_, ?_⟩
  · constructor
    · rintro ⟨address, h⟩
      obtain ⟨hnumeral, hvalue⟩ := (hok address).1 h
      exact ⟨hnumeral, hvalue ▸ Nat.le_of_lt_succ address.toNat_lt⟩
    · rintro ⟨hnumeral, hvalue⟩
      refine ⟨UInt16.ofNat (Hex.value unsigned), (hok _).2 ⟨hnumeral, ?_⟩⟩
      exact (UInt16.toNat_ofNat_of_lt (Nat.lt_succ_of_le hvalue)).symm
  · exact hok
  · exact (hrefused .empty).trans Number.read_eq_empty_iff
  · exact (hrefused .tooLarge).trans Number.read_eq_tooLarge_iff
  · exact (hrefused .invalidDigit).trans Number.read_eq_invalidDigit_iff

end Cpu6502
