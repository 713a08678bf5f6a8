import Cpu6502.Text.Number
import Cpu6502.Text.Quoted

/-!
# Addresses

An address is written in hexadecimal, after a dollar sign, after `0x` or on its own.
-/

namespace Cpu6502

/-- An address that could not be read. -/
structure AddressError where
  text : String
  cause : NumberError
  deriving DecidableEq, Repr

/-- The wording of the error. -/
def AddressError.message (e : AddressError) : String :=
  s!"invalid address {Text.quoted e.text}: {e.cause.message}"

/-- The digits of an address, without the dollar sign or the `0x` that may introduce them. -/
def addressDigits : List Char → List Char
  | '$' :: digits | '0' :: 'x' :: digits | '0' :: 'X' :: digits => digits
  | digits => digits

/-- Reads an address. -/
def addressOfText (text : String) : Except AddressError UInt16 :=
  (Number.word (addressDigits text.toList)).mapError (⟨text, ·⟩)

end Cpu6502
