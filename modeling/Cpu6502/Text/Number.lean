import Cpu6502.Text.Hex

/-!
# Reading bounded numbers

An unsigned number is written as one or more digits, with at most one plus sign in front. Digits
are taken from the left, and the first one that is no digit, or that carries the value past the
bound, decides the error.
-/

namespace Cpu6502

/-- Why a text is not a number within its bound. -/
inductive NumberError where
  /-- The text has no characters. -/
  | empty
  /-- A character is not a digit. -/
  | invalidDigit
  /-- The value exceeds the bound. -/
  | tooLarge
  deriving DecidableEq, Repr

/-- The wording of the error. -/
def NumberError.message : NumberError → String
  | empty => "cannot parse integer from empty string"
  | invalidDigit => "invalid digit found in string"
  | tooLarge => "number too large to fit in target type"

namespace Number

/-- The value of a digit in the given radix, which is at most sixteen. -/
def digit? (radix : Nat) (c : Char) : Option Nat :=
  (Hex.digit? c).filter (· < radix)

/-- Continues a number whose digits so far are worth `value`. -/
def readDigits (radix bound : Nat) : Nat → List Char → Except NumberError Nat
  | value, [] => .ok value
  | value, c :: rest =>
    match digit? radix c with
    | none => .error .invalidDigit
    | some d =>
      if bound < value * radix + d then .error .tooLarge
      else readDigits radix bound (value * radix + d) rest

/-- Reads a number that is at most `bound`. -/
def read (radix bound : Nat) : List Char → Except NumberError Nat
  | [] => .error .empty
  | ['+'] => .error .invalidDigit
  | '+' :: rest => readDigits radix bound 0 rest
  | text => readDigits radix bound 0 text

/-- Reads a 16-bit number in hexadecimal. -/
def word (text : List Char) : Except NumberError UInt16 :=
  (read 16 0xFFFF text).map UInt16.ofNat

end Number

end Cpu6502
