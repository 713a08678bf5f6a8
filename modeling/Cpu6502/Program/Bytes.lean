import Cpu6502.Program.FileSystem
import Cpu6502.Text.Blank
import Cpu6502.Text.Hex
import Cpu6502.Text.Quoted

/-!
# Programs as bytes

Machine code is read from a file byte for byte, or from a list of hexadecimal bytes that blanks
separate. Either way an empty program is refused.
-/

namespace Cpu6502

/-- Why machine code could not be read. -/
inductive ProgramError where
  | unreadable (cause : ReadFailure)
  /-- The word at `index`, counted from zero, is no byte. -/
  | invalidToken (index : Nat) (token : String)
  | empty
  deriving DecidableEq, Repr

/-- The wording of the error. -/
def ProgramError.message : ProgramError → String
  | unreadable cause => s!"failed to read program: {cause.message}"
  | invalidToken index token => s!"token {index} ({Text.quoted token}) is not a hex byte"
  | empty => "program is empty"

/-- Refuses an empty program. -/
def nonEmpty (bytes : List UInt8) : Except ProgramError (List UInt8) :=
  if bytes = [] then .error .empty else .ok bytes

/-- The byte that a word writes with one or two hexadecimal digits, after an optional `0x`. -/
def hexToken? : List Char → Option UInt8
  | '0' :: 'x' :: digits | '0' :: 'X' :: digits => Hex.byte? digits
  | digits => Hex.byte? digits

/-- Reads a list of hexadecimal bytes. -/
def bytesOfHex (text : String) : Except ProgramError (List UInt8) := do
  let bytes ← (Text.words text.toList).zipIdx.mapM fun (token, index) =>
    match hexToken? token with
    | some byte => .ok byte
    | none => .error (.invalidToken index (String.ofList token))
  nonEmpty bytes

/-- Reads a file of machine code. -/
def bytesOfFile (files : FileSystem) (path : String) : Except ProgramError (List UInt8) :=
  match files.read path with
  | .ok contents => nonEmpty contents.data.toList
  | .error cause => .error (.unreadable cause)

end Cpu6502
