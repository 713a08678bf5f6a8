import Cpu6502.Assembly.Defect
import Cpu6502.Text.Blank

/-!
# Source lines and statements

A semicolon starts a comment. Before it, a line may define a label, which is what precedes the
first colon, and may hold one statement: a mnemonic and at most one operand word.

The form of the operand calls for an addressing mode: `#$nn` for the immediate one, nothing for the
implied one, an identifier for the relative one, and `$nn` for the relative one if the mnemonic is
a branch and for the zero-page one otherwise.
-/

namespace Cpu6502

/-- A source line without its comment, cut at its first colon. -/
structure Line where
  /-- What stands before the colon, if there is one. -/
  label : Option (List Char)
  /-- What may be a statement. -/
  body : List Char
  deriving DecidableEq, Repr

/-- The parts of a source line. -/
def Line.ofText (text : List Char) : Line :=
  let code := Text.trim (text.takeWhile (· ≠ ';'))
  match code.dropWhile (· ≠ ':') with
  | [] => ⟨none, code⟩
  | _ :: rest => ⟨some (Text.trim (code.takeWhile (· ≠ ':'))), Text.trim rest⟩

/-- Holds of the texts that may be labels: ASCII letters, digits and underscores, the first of
which is no digit. -/
def isIdentifier : List Char → Bool
  | [] => false
  | c :: rest => (c.isAlpha || c = '_') && rest.all fun c => c.isAlphanum || c = '_'

/-- The operand of a statement, as it is written. -/
inductive Argument where
  /-- No operand. -/
  | none
  /-- A literal byte. -/
  | immediate (value : UInt8)
  /-- A byte that is an address in page zero or, for a branch, a distance. -/
  | byte (value : UInt8)
  /-- A label. -/
  | label (name : String)
  deriving DecidableEq, Repr

namespace Argument

/-- Reads an operand word. -/
def ofWord? : List Char → Option Argument
  | '#' :: '$' :: digits => (Hex.byte? digits).map immediate
  | '$' :: digits => (Hex.byte? digits).map byte
  | word => if isIdentifier word then some (label (String.ofList word)) else Option.none

/-- The addressing mode that an operand calls for. -/
def mode (mnemonic : Mnemonic) : Argument → AddressingMode
  | none => .implied
  | immediate _ => .immediate
  | byte _ => if .relative ∈ Instruction.modesOf mnemonic then .relative else .zeroPage
  | label _ => .relative

end Argument

/-- A row of the instruction table and the operand to encode it with. -/
structure Statement where
  instruction : Instruction
  argument : Argument
  deriving DecidableEq, Repr

namespace Statement

/-- The statement of a mnemonic and an operand. -/
def ofParts (mnemonic : List Char) (argument : Argument) : Except Defect Statement :=
  let name := String.ofList mnemonic
  match Mnemonic.named? name with
  | none => .error (.unknownMnemonic name)
  | some m =>
    match Instruction.find? name (argument.mode m) with
    | none => .error (.unsupportedMode m (argument.mode m))
    | some instruction => .ok ⟨instruction, argument⟩

/-- Reads the statement of a line, if the line has one. -/
def ofBody (body : List Char) : Except Defect (Option Statement) :=
  match Text.words body with
  | [] => .ok none
  | [mnemonic] => (ofParts mnemonic .none).map some
  | mnemonic :: operand :: rest =>
    match Argument.ofWord? operand, rest with
    | none, _ => .error (.badOperand (String.ofList body))
    | some _, extra :: _ => .error (.badOperand (String.ofList extra))
    | some argument, [] => (ofParts mnemonic argument).map some

end Statement

end Cpu6502
