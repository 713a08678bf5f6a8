import Cpu6502.Instruction.Operand
import Cpu6502.Processor.Memory

/-!
# Faults

What can stop an instruction: an opcode without a row in the table, an access outside memory, an
operand of a shape that the instruction cannot use, or a tick count that is exhausted.
-/

namespace Cpu6502

/-- Why an instruction could not be executed. -/
inductive Fault where
  /-- The opcode at `pc` has no row in the instruction table. -/
  | unimplementedOpcode (opcode : UInt8) (pc : UInt16)
  /-- A read or a write went outside memory. -/
  | memory (cause : OutOfBounds)
  /-- The operand does not name a value. -/
  | noValue (operand : Operand)
  /-- The operand does not name a cell. -/
  | noAddress (operand : Operand)
  /-- The operand of a branch is not a distance. -/
  | noDistance (operand : Operand)
  /-- The tick count would exceed 64 bits. -/
  | tickOverflow
  deriving DecidableEq, Repr

/-- The wording of a fault. -/
def Fault.message : Fault → String
  | unimplementedOpcode opcode pc => s!"unimplemented opcode ${Hex.byte opcode} at ${Hex.word pc}"
  | memory cause => cause.message
  | noValue operand =>
    s!"internal error: entered unreachable code: {operand.inspect} does not name a value"
  | noAddress operand =>
    s!"internal error: entered unreachable code: {operand.inspect} does not name an address"
  | noDistance operand =>
    s!"internal error: entered unreachable code: branch handler given {operand.inspect}"
  | tickOverflow => "attempt to add with overflow"

end Cpu6502
