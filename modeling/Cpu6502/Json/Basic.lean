import Cpu6502.Json.Token
import Cpu6502.Text.Number

/-!
# JSON values

Values are written as tokens without blanks and read back with any blanks between them. Members of
an object keep their order, and repeated keys are kept.
-/

namespace Cpu6502

/-- A JSON value. Numbers, strings and keys keep their spelling. -/
inductive Json where
  | null
  | bool (value : Bool)
  | number (spelling : List Char)
  | string (spelling : List Char)
  | array (items : List Json)
  | object (members : List (List Char × Json))

namespace Json

/-! ## Writing -/

/-- A natural number in decimal. -/
def ofNat (n : Nat) : Json :=
  number (Nat.toDigits 10 n)

/-- The spelling of a character in a string. -/
def escape (c : Char) : List Char :=
  match c with
  | '"' => ['\\', '"']
  | '\\' => ['\\', '\\']
  | '\x08' => ['\\', 'b']
  | '\x0c' => ['\\', 'f']
  | '\n' => ['\\', 'n']
  | '\r' => ['\\', 'r']
  | '\t' => ['\\', 't']
  | c => if c < ' ' then "\\u00".toList ++ (Hex.digits 2 c.toNat).map Char.toLower else [c]

/-- A string of characters. -/
def ofString (text : String) : Json :=
  string (text.toList.flatMap escape)

mutual

/-- The tokens of a value. -/
def tokens : Json → List Token
  | null => [.null]
  | bool value => [.bool value]
  | number spelling => [.number spelling]
  | string spelling => [.string spelling]
  | array [] => [.openBracket, .closeBracket]
  | array (item :: items) => .openBracket :: tokens item ++ itemTokens items
  | object [] => [.openBrace, .closeBrace]
  | object ((key, value) :: members) =>
    .openBrace :: .string key :: .colon :: tokens value ++ memberTokens members

/-- The tokens of the items after the first, and of the end of the array. -/
def itemTokens : List Json → List Token
  | [] => [.closeBracket]
  | item :: items => .comma :: tokens item ++ itemTokens items

/-- The tokens of the members after the first, and of the end of the object. -/
def memberTokens : List (List Char × Json) → List Token
  | [] => [.closeBrace]
  | (key, value) :: members =>
    .comma :: .string key :: .colon :: tokens value ++ memberTokens members

end

/-- The value as text. -/
def render (json : Json) : String :=
  String.ofList (json.tokens.flatMap Token.text)

/-! ## Reading -/

mutual

/-- Reads a value from the front of a list of tokens. -/
def readValue : (fuel : Nat) → List Token → Option (Json × List Token)
  | 0, _ => none
  | _ + 1, .null :: rest => some (null, rest)
  | _ + 1, .bool value :: rest => some (bool value, rest)
  | _ + 1, .number spelling :: rest => some (number spelling, rest)
  | _ + 1, .string spelling :: rest => some (string spelling, rest)
  | _ + 1, .openBracket :: .closeBracket :: rest => some (array [], rest)
  | fuel + 1, .openBracket :: rest => do
    let (items, rest) ← readItems fuel rest
    return (array items, rest)
  | _ + 1, .openBrace :: .closeBrace :: rest => some (object [], rest)
  | fuel + 1, .openBrace :: rest => do
    let (members, rest) ← readMembers fuel rest
    return (object members, rest)
  | _ + 1, _ => none

/-- Reads one item or more, and the end of the array. -/
def readItems : (fuel : Nat) → List Token → Option (List Json × List Token)
  | 0, _ => none
  | fuel + 1, tokens => do
    match ← readValue fuel tokens with
    | (item, .closeBracket :: rest) => return ([item], rest)
    | (item, .comma :: rest) =>
      let (items, rest) ← readItems fuel rest
      return (item :: items, rest)
    | _ => none

/-- Reads one member or more, and the end of the object. -/
def readMembers : (fuel : Nat) → List Token → Option (List (List Char × Json) × List Token)
  | 0, _ => none
  | fuel + 1, .string key :: .colon :: tokens => do
    match ← readValue fuel tokens with
    | (value, .closeBrace :: rest) => return ([(key, value)], rest)
    | (value, .comma :: rest) =>
      let (members, rest) ← readMembers fuel rest
      return ((key, value) :: members, rest)
    | _ => none
  | _ + 1, _ => none

end

/-- The value of a text, if it is a JSON text. -/
def ofText? (text : String) : Option Json := do
  let tokens ← Token.scanAll text.toList
  match ← readValue (2 * tokens.length) tokens with
  | (json, []) => return json
  | _ => none

/-! ## Parts of values -/

/-- The truth value, if it is one. -/
def bool? : Json → Option Bool
  | bool value => some value
  | _ => none

/-- The natural number, if it is one that is at most `bound` and is written with digits only. -/
def nat? (bound : Nat) : Json → Option Nat
  | number spelling => (Number.readDigits 10 bound 0 spelling).toOption
  | _ => none

/-- The value of four hexadecimal digits. -/
def unit (a b c d : Char) : Nat :=
  ([a, b, c, d].map fun digit => (Hex.digit? digit).getD 0).foldl (16 * · + ·) 0

/-- The character that a backslash and a letter stand for. -/
def unescape : Char → Char
  | 'b' => '\x08'
  | 'f' => '\x0c'
  | 'n' => '\n'
  | 'r' => '\r'
  | 't' => '\t'
  | c => c

/-- The characters that a string stands for. A pair of surrogate units stands for one character,
and a surrogate unit on its own for none, so that such a string has no text. -/
def characters? : List Char → Option (List Char)
  | [] => some []
  | '\\' :: 'u' :: a :: b :: c :: d :: rest =>
    let high := unit a b c d
    if 0xD800 ≤ high ∧ high < 0xDC00 then
      match rest with
      | '\\' :: 'u' :: e :: f :: g :: h :: rest =>
        let low := unit e f g h
        if 0xDC00 ≤ low ∧ low < 0xE000 then
          let code := 0x10000 + (high - 0xD800) * 0x400 + (low - 0xDC00)
          (characters? rest).map (Char.ofNat code :: ·)
        else none
      | _ => none
    else if 0xDC00 ≤ high ∧ high < 0xE000 then none
    else (characters? rest).map (Char.ofNat high :: ·)
  | '\\' :: c :: rest => (characters? rest).map (unescape c :: ·)
  | c :: rest => (characters? rest).map (c :: ·)

/-- The values of the named fields, in the order of the names. They are either the items of an
array, or the members of an object that has each of the names once and may have others. -/
def fields? (names : List String) : Json → Option (List Json)
  | array items => if items.length = names.length then some items else none
  | object members => do
    let members ← members.mapM fun (key, value) => (characters? key).map (·, value)
    names.mapM fun name =>
      match members.filter (·.1 = name.toList) with
      | [(_, value)] => some value
      | _ => none
  | _ => none

end Json

end Cpu6502
