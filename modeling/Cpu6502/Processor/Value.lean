import Cpu6502.Text.Hex

/-!
# Values

A query answers with a value of one of five types. Bytes and words are shown in hexadecimal,
counts in decimal.
-/

namespace Cpu6502

/-- A value that a query may return. -/
inductive Value where
  | bool (value : Bool)
  | byte (value : UInt8)
  | word (value : UInt16)
  | count (value : UInt64)
  | text (value : String)
  deriving DecidableEq, Repr

namespace Value

/-- The truth value, if it is one. -/
def bool? : Value → Option Bool
  | bool value => some value
  | _ => none

/-- The number, if it is one, widened to 64 bits. -/
def count? : Value → Option UInt64
  | byte value => some value.toUInt64
  | word value => some value.toUInt64
  | count value => some value
  | bool _ | text _ => none

/-- The value as it is shown. -/
def render : Value → String
  | bool value => if value then "true" else "false"
  | byte value => "0x" ++ Hex.byte value
  | word value => "0x" ++ Hex.word value
  | count value => toString value.toNat
  | text value => value

end Value

end Cpu6502
