import Cpu6502.Instruction.Table
import Cpu6502.Text.Quoted

/-!
# What can be wrong with an assembly source
-/

namespace Cpu6502

/-- A defect of a source line. -/
inductive Defect where
  /-- No instruction has this mnemonic. -/
  | unknownMnemonic (text : String)
  /-- The mnemonic exists, but not in the mode that the operand calls for. -/
  | unsupportedMode (mnemonic : Mnemonic) (mode : AddressingMode)
  /-- An operand that cannot be read, or a word after the operand. -/
  | badOperand (text : String)
  /-- A label that is no identifier. -/
  | badLabel (text : String)
  /-- A label that an earlier line defines. -/
  | duplicateLabel (name : String)
  /-- A label that no line defines. -/
  | undefinedLabel (name : String)
  /-- A label that lies too far away for a branch. -/
  | branchOutOfRange (name : String) (distance : Int)
  deriving DecidableEq, Repr

/-- The wording of a defect. -/
def Defect.message : Defect → String
  | unknownMnemonic text => s!"unknown mnemonic {Text.quoted text}"
  | unsupportedMode mnemonic mode => s!"{mnemonic.name} has no {mode.text} form"
  | badOperand text => s!"malformed operand {Text.quoted text}"
  | badLabel text => s!"invalid label {Text.quoted text}"
  | duplicateLabel name => s!"label {Text.quoted name} defined twice"
  | undefinedLabel name => s!"undefined label {Text.quoted name}"
  | branchOutOfRange name distance =>
    s!"branch to {Text.quoted name} is {distance} bytes away, outside -128..=127"

/-- A defect and the line that has it, where the first line is line one. -/
structure AssemblyError where
  line : Nat
  defect : Defect
  deriving DecidableEq, Repr

/-- The wording of the error. -/
def AssemblyError.message (e : AssemblyError) : String :=
  s!"line {e.line}: {e.defect.message}"

end Cpu6502
