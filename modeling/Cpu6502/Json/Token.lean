import Cpu6502.Text.Hex

/-!
# The tokens of JSON

A JSON text is a sequence of tokens with blanks between them. Numbers and strings keep the spelling
that they have in the text.
-/

namespace Cpu6502.Json

/-- A token. The spelling of a string leaves out its quotation marks. -/
inductive Token where
  | openBrace
  | closeBrace
  | openBracket
  | closeBracket
  | comma
  | colon
  | null
  | bool (value : Bool)
  | number (spelling : List Char)
  | string (spelling : List Char)
  deriving DecidableEq, Repr

namespace Token

/-- The token as it is written. -/
def text : Token → List Char
  | openBrace => ['\x7b']
  | closeBrace => ['\x7d']
  | openBracket => ['[']
  | closeBracket => [']']
  | comma => [',']
  | colon => [':']
  | null => ['n', 'u', 'l', 'l']
  | bool true => ['t', 'r', 'u', 'e']
  | bool false => ['f', 'a', 'l', 's', 'e']
  | number spelling => spelling
  | string spelling => '"' :: spelling ++ ['"']

/-! ## Numbers -/

/-- Splits off one digit or more. -/
def scanDigits (text : List Char) : Option (List Char × List Char) :=
  match text.takeWhile Char.isDigit with
  | [] => none
  | digits => some (digits, text.dropWhile Char.isDigit)

/-- Splits off an integer without sign: a zero, or digits that do not start with one. -/
def scanInteger : List Char → Option (List Char × List Char)
  | '0' :: rest => some (['0'], rest)
  | text => scanDigits text

/-- Splits off a fraction, if there is one. -/
def scanFraction : List Char → Option (List Char × List Char)
  | '.' :: rest => (scanDigits rest).map fun (digits, rest) => ('.' :: digits, rest)
  | text => some ([], text)

/-- Splits off the sign of an exponent, if there is one. -/
def scanSign : List Char → List Char × List Char
  | '+' :: rest => (['+'], rest)
  | '-' :: rest => (['-'], rest)
  | text => ([], text)

/-- Splits off an exponent, if there is one. -/
def scanExponent : List Char → Option (List Char × List Char)
  | c :: rest =>
    if c = 'e' ∨ c = 'E' then
      let (sign, rest) := scanSign rest
      (scanDigits rest).map fun (digits, rest) => (c :: sign ++ digits, rest)
    else some ([], c :: rest)
  | [] => some ([], [])

/-- Splits off a number without sign. -/
def scanUnsigned (text : List Char) : Option (List Char × List Char) := do
  let (integer, rest) ← scanInteger text
  let (fraction, rest) ← scanFraction rest
  let (exponent, rest) ← scanExponent rest
  return (integer ++ fraction ++ exponent, rest)

/-- Splits off a number. -/
def scanNumber : List Char → Option (List Char × List Char)
  | '-' :: rest => (scanUnsigned rest).map fun (digits, rest) => ('-' :: digits, rest)
  | text => scanUnsigned text

/-! ## Strings -/

/-- The characters that a backslash may stand before, other than `u`. -/
def simpleEscapes : List Char := ['"', '\\', '/', 'b', 'f', 'n', 'r', 't']

/-- Splits off the spelling of a string and the quotation mark that ends it. -/
def scanString : List Char → Option (List Char × List Char)
  | [] => none
  | '"' :: rest => some ([], rest)
  | '\\' :: 'u' :: a :: b :: c :: d :: rest =>
    if [a, b, c, d].all Hex.isDigit then
      (scanString rest).map fun (s, rest) => ('\\' :: 'u' :: a :: b :: c :: d :: s, rest)
    else none
  | '\\' :: c :: rest =>
    if c ∈ simpleEscapes then (scanString rest).map fun (s, rest) => ('\\' :: c :: s, rest)
    else none
  | c :: rest =>
    if c < ' ' then none else (scanString rest).map fun (s, rest) => (c :: s, rest)

/-! ## Texts -/

/-- The blanks that may stand between tokens. -/
def isBlank (c : Char) : Bool :=
  c = ' ' || c = '\t' || c = '\n' || c = '\r'

/-- Splits off the token that a text starts with. -/
def scan : List Char → Option (Token × List Char)
  | '\x7b' :: rest => some (openBrace, rest)
  | '\x7d' :: rest => some (closeBrace, rest)
  | '[' :: rest => some (openBracket, rest)
  | ']' :: rest => some (closeBracket, rest)
  | ',' :: rest => some (comma, rest)
  | ':' :: rest => some (colon, rest)
  | 'n' :: 'u' :: 'l' :: 'l' :: rest => some (null, rest)
  | 't' :: 'r' :: 'u' :: 'e' :: rest => some (bool true, rest)
  | 'f' :: 'a' :: 'l' :: 's' :: 'e' :: rest => some (bool false, rest)
  | '"' :: rest => (scanString rest).map fun (spelling, rest) => (string spelling, rest)
  | text => (scanNumber text).map fun (spelling, rest) => (number spelling, rest)

/-- The tokens of a text that has at most `fuel` of them. -/
def scanAllWithin : (fuel : Nat) → List Char → Option (List Token)
  | fuel, text =>
    match fuel, text.dropWhile isBlank with
    | _, [] => some []
    | 0, _ :: _ => none
    | fuel + 1, text => do
      let (token, rest) ← scan text
      return token :: (← scanAllWithin fuel rest)

/-- The tokens of a text, if it consists of tokens and blanks. -/
def scanAll (text : List Char) : Option (List Token) :=
  scanAllWithin text.length text

end Token

end Cpu6502.Json
