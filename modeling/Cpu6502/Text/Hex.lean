/-!
# Hexadecimal digits

Digits are read in either case and written in upper case. A byte is written with two digits and a
word with four, so that columns of bytes and addresses line up.

* `Hex.digit?_digit`, `Hex.byte?_digits`: what is written reads back as its value.
-/

namespace Cpu6502.Hex

/-- The value of a hexadecimal digit, in either case. -/
def digit? (c : Char) : Option Nat :=
  if '0' ≤ c ∧ c ≤ '9' then some (c.toNat - '0'.toNat)
  else if 'a' ≤ c ∧ c ≤ 'f' then some (c.toNat - 'a'.toNat + 10)
  else if 'A' ≤ c ∧ c ≤ 'F' then some (c.toNat - 'A'.toNat + 10)
  else none

/-- Holds of the twenty-two hexadecimal digits. -/
def isDigit (c : Char) : Bool :=
  (digit? c).isSome

/-- The upper-case digit of a value below sixteen. -/
def digit (value : Nat) : Char :=
  (Nat.digitChar value).toUpper

/-- The `width` low digits of a number, the most significant first. -/
def digits : Nat → Nat → List Char
  | 0, _ => []
  | width + 1, value => digits width (value / 16) ++ [digit (value % 16)]

/-- A byte as two digits. -/
def byte (value : UInt8) : String :=
  String.ofList (digits 2 value.toNat)

/-- A word as four digits. -/
def word (value : UInt16) : String :=
  String.ofList (digits 4 value.toNat)

/-- As many upper-case digits as the number needs, at least one. -/
def upper (value : Nat) : String :=
  String.ofList ((Nat.toDigits 16 value).map Char.toUpper)

/-- As many lower-case digits as the number needs, at least one. -/
def lower (value : Nat) : String :=
  String.ofList (Nat.toDigits 16 value)

/-- A byte written with one or two digits and nothing else. -/
def byte? : List Char → Option UInt8
  | [low] => (digit? low).map UInt8.ofNat
  | [high, low] => do
    let high ← digit? high
    let low ← digit? low
    return UInt8.ofNat (16 * high + low)
  | _ => none

/-! ## Reading what was written -/

theorem digit?_digit {value : Nat} (h : value < 16) : digit? (digit value) = some value := by
  have all : ∀ v : Fin 16, digit? (digit v) = some v.val := by decide
  exact all ⟨value, h⟩

@[simp] theorem length_digits (width value : Nat) : (digits width value).length = width := by
  induction width generalizing value with
  | zero => rfl
  | succ width ih => simp [digits, ih]

theorem byte?_digits (value : UInt8) : byte? (digits 2 value.toNat) = some value := by
  have hlt := value.toNat_lt
  have hhigh := digit?_digit (show value.toNat / 16 % 16 < 16 by omega)
  have hlow := digit?_digit (show value.toNat % 16 < 16 by omega)
  have hdigits : digits 2 value.toNat =
      [digit (value.toNat / 16 % 16), digit (value.toNat % 16)] := rfl
  have hsum : 16 * (value.toNat / 16 % 16) + value.toNat % 16 = value.toNat := by omega
  rw [hdigits]
  simp only [byte?, hhigh, hlow, Option.bind_eq_bind, Option.bind_some]
  rw [hsum, UInt8.ofNat_toNat]
  rfl

/-- Different bytes are written differently. -/
theorem byte_injective {value value' : UInt8} (h : byte value = byte value') : value = value' := by
  have hread := congrArg byte? (String.ofList_injective h)
  rw [byte?_digits, byte?_digits] at hread
  exact Option.some.inj hread

end Cpu6502.Hex
