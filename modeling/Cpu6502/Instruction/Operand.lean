/-!
# Addressing modes and operands

An addressing mode says whether an operand byte follows the opcode and what that byte means: a
literal, a cell in page zero, or a signed branch offset. An operand is that byte with its meaning.
-/

namespace Cpu6502

/-- How an instruction finds its operand. -/
inductive AddressingMode where
  /-- No operand byte. -/
  | implied
  /-- The operand byte is the value itself. -/
  | immediate
  /-- The operand byte is the address of a cell in page zero. -/
  | zeroPage
  /-- The operand byte is a signed distance from the next instruction. -/
  | relative
  deriving DecidableEq, Repr

namespace AddressingMode

/-- The number of bytes that follow the opcode. -/
def operandLength : AddressingMode → Nat
  | implied => 0
  | immediate | zeroPage | relative => 1

/-- The mode as messages write it. -/
def text : AddressingMode → String
  | implied => "implied"
  | immediate => "immediate"
  | zeroPage => "zero page"
  | relative => "relative"

/-- The form in which a mode is shown for inspection. -/
def inspect : AddressingMode → String
  | implied => "Implied"
  | immediate => "Immediate"
  | zeroPage => "ZeroPage"
  | relative => "Relative"

end AddressingMode

/-- What an instruction works on. -/
inductive Operand where
  /-- Nothing. -/
  | none
  /-- A literal byte. -/
  | literal (value : UInt8)
  /-- The cell at an address. -/
  | address (cell : UInt16)
  /-- A branch distance. -/
  | offset (distance : Int8)
  deriving DecidableEq, Repr

/-- The form in which an operand is shown for inspection. -/
def Operand.inspect : Operand → String
  | none => "None"
  | literal value => s!"Value({value})"
  | address cell => s!"Address({cell})"
  | offset distance => s!"Offset({distance.toInt})"

/-- The 256-byte page that an address lies in. -/
def page (address : UInt16) : Nat :=
  address.toNat / 256

/-- Holds when two addresses lie in different pages. -/
def pageCrossed (a b : UInt16) : Bool :=
  page a ≠ page b

/-- Where a branch leads whose following instruction is at `next`, modulo the address space. -/
def branchTarget (next : UInt16) (distance : Int8) : UInt16 :=
  UInt16.ofInt (next.toNat + distance.toInt)

end Cpu6502
