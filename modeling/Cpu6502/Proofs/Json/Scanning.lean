import Mathlib.Data.List.Chain
import Mathlib.Data.List.TakeWhile
import Cpu6502.Proofs.Json.Strings
import Cpu6502.Proofs.Text.Decimal

/-! # Tokens of JSON in a text

A text writes tokens one after another with any blanks before, between and after them. It is scanned
into these tokens if every one of them is spelled as its kind demands, and no number comes directly
after a number, which would take its digits for more of its own.

* `Json.Token.scan_append`: one token is scanned up to what comes after it.
* `Json.Token.scanAll_of_spaced`: so all of them are, by induction on the text.
-/

namespace Cpu6502.Json

/-! ## Integers -/

/-- An integer in decimal. -/
def ofInt (n : Int) : Json :=
  number (if n < 0 then '-' :: Nat.toDigits 10 n.natAbs else Nat.toDigits 10 n.natAbs)

theorem ofInt_natCast (n : Nat) : ofInt n = ofNat n := by
  unfold ofInt ofNat
  rw [if_neg (by omega), Int.natAbs_natCast]

namespace Token

/-- Holds of a character with which no number goes on. -/
def IsNumberEnd (c : Char) : Prop :=
  c.isDigit = false ∧ c ≠ '.' ∧ c ≠ 'e' ∧ c ≠ 'E'

instance : DecidablePred IsNumberEnd :=
  fun _ => inferInstanceAs (Decidable (_ ∧ _))

/-- A number ends before this text. -/
def EndsNumber (text : List Char) : Prop :=
  ∀ c ∈ text.head?, IsNumberEnd c

variable {text rest : List Char}

theorem scanDigits_append {digits : List Char} (hne : digits ≠ [])
    (hdigits : ∀ c ∈ digits, c.isDigit) (hrest : EndsNumber rest) :
    scanDigits (digits ++ rest) = some (digits, rest) := by
  have hnone : rest.takeWhile Char.isDigit = [] ∧ rest.dropWhile Char.isDigit = rest := by
    cases rest with
    | nil => exact ⟨rfl, rfl⟩
    | cons c rest =>
      have hc := (hrest c rfl).1
      exact ⟨List.takeWhile_cons_of_neg (by simp [hc]), List.dropWhile_cons_of_neg (by simp [hc])⟩
  unfold scanDigits
  rw [List.takeWhile_append_of_pos hdigits, List.dropWhile_append_of_pos hdigits, hnone.1, hnone.2,
    List.append_nil]
  cases digits with
  | nil => exact absurd rfl hne
  | cons c digits => rfl

theorem scanInteger_toDigits (n : Nat) (hrest : EndsNumber rest) :
    scanInteger (Nat.toDigits 10 n ++ rest) = some (Nat.toDigits 10 n, rest) := by
  rcases Nat.eq_zero_or_pos n with rfl | hn
  · rfl
  · have hall : ∀ c ∈ Nat.toDigits 10 n, c.isDigit := fun c hc =>
      Nat.isDigit_of_mem_toDigits (by decide) (by decide) hc
    have hscan := scanDigits_append Nat.toDigits_ne_nil hall hrest
    obtain ⟨c, digits, hdigits, -, hzero⟩ := exists_toDigits_eq_cons n
    rw [hdigits] at hscan ⊢
    rw [List.cons_append, scanInteger]
    · exact hscan
    · intro rest h
      exact hzero hn (List.cons.inj h).1

theorem scanFraction_of_endsNumber (hrest : EndsNumber rest) :
    scanFraction rest = some ([], rest) := by
  cases rest with
  | nil => rfl
  | cons c rest =>
    rw [scanFraction]
    intro rest h
    exact (hrest c rfl).2.1 (List.cons.inj h).1

theorem scanExponent_of_endsNumber (hrest : EndsNumber rest) :
    scanExponent rest = some ([], rest) := by
  cases rest with
  | nil => rfl
  | cons c rest =>
    have hc := (hrest c rfl).2.2
    rw [scanExponent, if_neg (not_or.2 hc)]

theorem scanUnsigned_toDigits (n : Nat) (hrest : EndsNumber rest) :
    scanUnsigned (Nat.toDigits 10 n ++ rest) = some (Nat.toDigits 10 n, rest) := by
  unfold scanUnsigned
  rw [scanInteger_toDigits n hrest]
  show ((scanFraction rest).bind _) = _
  rw [scanFraction_of_endsNumber hrest]
  show ((scanExponent rest).bind _) = _
  rw [scanExponent_of_endsNumber hrest]
  show some (Nat.toDigits 10 n ++ [] ++ [], rest) = _
  rw [List.append_nil, List.append_nil]

/-! ## Tokens -/

/-- Holds of a token that is spelled as its kind demands, if it is a number or a string. Numbers are
integers in decimal. -/
def Proper : Token → Prop
  | number spelling => ∃ n, spelling = Nat.toDigits 10 n ∨ spelling = '-' :: Nat.toDigits 10 n
  | string spelling => ∃ content, Spells spelling content
  | _ => True

/-- Holds of a number. -/
def isNumber : Token → Bool
  | number _ => true
  | _ => false

theorem scan_eq_scanNumber {c : Char} (hc : c.isDigit ∨ c = '-') :
    scan (c :: text) =
      (scanNumber (c :: text)).map fun (spelling, rest) => (number spelling, rest) := by
  rw [scan] <;>
    (intro rest h
     rw [(List.cons.inj h).1] at hc
     exact absurd hc (by decide))

theorem scan_number {spelling : List Char} (h : (number spelling).Proper)
    (hrest : EndsNumber rest) : scan (spelling ++ rest) = some (number spelling, rest) := by
  obtain ⟨n, hn⟩ := h
  have hunsigned := scanUnsigned_toDigits n hrest
  rcases hn with rfl | rfl
  · obtain ⟨c, digits, hdigits, hc, -⟩ := exists_toDigits_eq_cons n
    rw [hdigits] at hunsigned ⊢
    rw [List.cons_append, scan_eq_scanNumber (.inl hc), scanNumber]
    · rw [← List.cons_append, hunsigned]
      rfl
    · intro rest h
      rw [(List.cons.inj h).1] at hc
      exact absurd hc (by decide)
  · rw [List.cons_append, scan_eq_scanNumber (.inr rfl), scanNumber, hunsigned]
    rfl

/-- A token is scanned from its text, if what comes after it does not continue it. -/
theorem scan_append {token : Token} (h : token.Proper)
    (hrest : token.isNumber → EndsNumber rest) : scan (token.text ++ rest) = some (token, rest) := by
  cases token with
  | number spelling => exact scan_number h (hrest rfl)
  | string spelling =>
    obtain ⟨content, hspells⟩ := h
    show (scanString (spelling ++ ['"'] ++ rest)).map _ = _
    rw [List.append_assoc, List.singleton_append, hspells.scanString rest]
    rfl
  | bool value =>
    cases value with
    | false => rfl
    | true => rfl
  | _ => rfl

/-! ## Texts -/

/-- The text writes the tokens with any blanks before, between and after them. -/
inductive Spaced : List Token → List Char → Prop where
  | nil {blanks : List Char} (blank : ∀ c ∈ blanks, isBlank c) : Spaced [] blanks
  | cons {token : Token} {tokens : List Token} {blanks text : List Char}
      (blank : ∀ c ∈ blanks, isBlank c) (rest : Spaced tokens text) :
      Spaced (token :: tokens) (blanks ++ (token.text ++ text))

/-- The one token may come directly before the other. -/
def Parted (token next : Token) : Prop :=
  token.isNumber → next.isNumber = false

/-- Tokens with the blanks before each of them. -/
theorem spaced_of_pieces (pieces : List (List Char × Token))
    (h : pieces.all fun piece => piece.1.all isBlank) :
    Spaced (pieces.map Prod.snd) (pieces.flatMap fun piece => piece.1 ++ piece.2.text) := by
  induction pieces with
  | nil => exact .nil (List.forall_mem_nil _)
  | cons piece pieces ih =>
    rw [List.all_cons, Bool.and_eq_true] at h
    rw [List.map_cons, List.flatMap_cons, List.append_assoc]
    exact .cons (List.all_eq_true.1 h.1) (ih h.2)

theorem spaced_flatMap_text (tokens : List Token) : Spaced tokens (tokens.flatMap Token.text) := by
  induction tokens with
  | nil => exact .nil (List.forall_mem_nil _)
  | cons token tokens ih => exact .cons (List.forall_mem_nil _) ih

theorem isNumberEnd_of_isBlank {c : Char} (h : isBlank c) : IsNumberEnd c := by
  unfold isBlank at h
  simp only [Bool.or_eq_true, decide_eq_true_eq] at h
  rcases h with ((rfl | rfl) | rfl) | rfl <;> decide

/-- A token begins with a character that is no blank and, unless the token is a number, does not
continue one. -/
theorem exists_text_eq_cons {token : Token} (h : token.Proper) :
    ∃ c rest, token.text = c :: rest ∧ isBlank c = false ∧
      (token.isNumber = false → IsNumberEnd c) := by
  have hdigit : ∀ c : Char, c.isDigit ∨ c = '-' → isBlank c = false := by
    intro c hc
    rw [← Bool.not_eq_true]
    intro hblank
    have hend := isNumberEnd_of_isBlank hblank
    rcases hc with hc | rfl
    · rw [hend.1] at hc
      cases hc
    · exact absurd hblank (by decide)
  cases token with
  | number spelling =>
    obtain ⟨n, hn⟩ := h
    rcases hn with rfl | rfl
    · obtain ⟨c, digits, hdigits, hc, -⟩ := exists_toDigits_eq_cons n
      exact ⟨c, digits, hdigits, hdigit c (.inl hc), nofun⟩
    · exact ⟨'-', _, rfl, rfl, nofun⟩
  | bool value =>
    cases value with
    | false => exact ⟨_, _, rfl, rfl, fun _ => by decide⟩
    | true => exact ⟨_, _, rfl, rfl, fun _ => by decide⟩
  | _ => exact ⟨_, _, rfl, rfl, fun _ => by decide⟩

theorem Spaced.endsNumber {tokens : List Token} (h : Spaced tokens text)
    (proper : ∀ token ∈ tokens, token.Proper)
    (hfirst : ∀ token ∈ tokens.head?, token.isNumber = false) : EndsNumber text := by
  cases h with
  | nil blank =>
    intro c hc
    exact isNumberEnd_of_isBlank (blank c (List.mem_of_mem_head? hc))
  | @cons token tokens blanks text blank rest =>
    intro c hc
    -- the text begins with a blank, or else with the token
    cases blanks with
    | nil =>
      obtain ⟨c', rest', htext, -, hend⟩ := exists_text_eq_cons (proper token List.mem_cons_self)
      rw [htext] at hc
      cases hc
      exact hend (hfirst token rfl)
    | cons c' blanks =>
      cases hc
      exact isNumberEnd_of_isBlank (blank _ List.mem_cons_self)

/-- A text of tokens is scanned into its tokens. -/
theorem Spaced.scanAllWithin {tokens : List Token} (h : Spaced tokens text)
    (proper : ∀ token ∈ tokens, token.Proper) (parted : tokens.IsChain Parted) {fuel : Nat}
    (hfuel : tokens.length ≤ fuel) : scanAllWithin fuel text = some tokens := by
  induction h generalizing fuel with
  | nil blank =>
    -- nothing is left but blanks
    have hdrop := List.dropWhile_eq_nil_iff.2 blank
    unfold Token.scanAllWithin
    rw [hdrop]
  | @cons token tokens blanks text blank rest ih =>
    obtain ⟨htoken, htokens⟩ := List.forall_mem_cons.1 proper
    obtain ⟨hnext, hparted⟩ := List.isChain_cons.1 parted
    -- what comes after a number cannot be a number, so it ends it
    have hends : token.isNumber → EndsNumber text := fun hnumber =>
      rest.endsNumber htokens fun next hmem => hnext next hmem hnumber
    have hscan := scan_append htoken hends
    obtain ⟨c, cs, htext, hblank, -⟩ := exists_text_eq_cons htoken
    rw [htext] at hscan
    have hdrop : (blanks ++ (token.text ++ text)).dropWhile isBlank = c :: (cs ++ text) := by
      rw [List.dropWhile_append_of_pos blank, htext]
      exact List.dropWhile_cons_of_neg (by simp [hblank])
    cases fuel with
    | zero => cases hfuel
    | succ fuel =>
      unfold Token.scanAllWithin
      rw [hdrop]
      show ((scan (c :: cs ++ text)).bind _) = _
      rw [hscan]
      show ((Token.scanAllWithin fuel text).bind _) = _
      rw [ih htokens hparted (Nat.le_of_succ_le_succ hfuel)]
      rfl

theorem Spaced.length_le {tokens : List Token} (h : Spaced tokens text)
    (proper : ∀ token ∈ tokens, token.Proper) : tokens.length ≤ text.length := by
  induction h with
  | nil => exact Nat.zero_le _
  | cons blank rest ih =>
    obtain ⟨htoken, htokens⟩ := List.forall_mem_cons.1 proper
    obtain ⟨c, cs, htext, -⟩ := exists_text_eq_cons htoken
    have hrest := ih htokens
    rw [List.length_append, List.length_append, htext, List.length_cons, List.length_cons]
    omega

theorem scanAll_of_spaced {tokens : List Token} (h : Spaced tokens text)
    (proper : ∀ token ∈ tokens, token.Proper) (parted : tokens.IsChain Parted) :
    scanAll text = some tokens :=
  h.scanAllWithin proper parted (h.length_le proper)

end Token

end Cpu6502.Json
