import Cpu6502.Text.Hex
import Cpu6502.Text.Visible

/-!
# Quoted text

Messages show a text between double quotes, so that its ends and its invisible characters can be
seen: quotes, backslashes and the common control characters are written with a backslash, visible
characters stand for themselves, and every other character is written by its code point.
-/

namespace Cpu6502.Text

/-- How a character is written between double quotes. -/
def escape (c : Char) : String :=
  match c with
  | '"' => "\\\""
  | '\\' => "\\\\"
  | '\t' => "\\t"
  | '\n' => "\\n"
  | '\r' => "\\r"
  | '\x00' => "\\0"
  | c => if isVisible c then c.toString else "\\u\x7b" ++ Hex.lower c.toNat ++ "\x7d"

/-- The text between double quotes. -/
def quoted (text : String) : String :=
  "\"" ++ String.join (text.toList.map escape) ++ "\""

example : quoted "a\"b\\c\td'\u00e9" = "\"a\\\"b\\\\c\\td'\u00e9\"" := by decide +kernel

end Cpu6502.Text
