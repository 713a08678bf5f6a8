import Cpu6502.Instruction.Exec
import Cpu6502.Instruction.Table

/-!
# What the instructions do

Each mnemonic changes the processor in one way and then either goes on, perhaps with a penalty on
top of the base cost, or halts. Arithmetic is binary; the decimal flag has no effect.
-/

namespace Cpu6502

/-- How an instruction ends. -/
inductive Outcome where
  /-- Execution goes on, at a cost of `penalty` ticks above the base cost. -/
  | proceed (penalty : UInt32)
  /-- The processor halts. -/
  | halt
  deriving DecidableEq, Repr

namespace Processor

/-! ## Changes of state -/

/-- Loads the accumulator and sets N and Z by it. -/
def loadAccumulator (cpu : Processor) (m : UInt8) : Processor :=
  { cpu with
    registers := { cpu.registers with a := m }
    flags := cpu.flags.withResult m }

/-- Adds a byte and the carry to the accumulator. C is the carry out of bit 7, and V says that the
two summands have a sign that their sum has not. -/
def addWithCarry (cpu : Processor) (m : UInt8) : Processor :=
  let a := cpu.registers.a
  let sum := a.toUInt16 + m.toUInt16 + (if cpu.flags.c then 1 else 0)
  let result := sum.toUInt8
  { cpu with
    registers := { cpu.registers with a := result }
    flags := { cpu.flags with
      c := 0xFF < sum
      v := (a ^^^ result) &&& (m ^^^ result) &&& 0x80 ≠ 0 }.withResult result }

/-- Compares the accumulator with a byte. C says that the byte is not greater, and N and Z are set
by the difference. -/
def compare (cpu : Processor) (m : UInt8) : Processor :=
  let a := cpu.registers.a
  { cpu with flags := { cpu.flags with c := m ≤ a }.withResult (a - m) }

/-- Sets the carry flag. -/
def withCarry (cpu : Processor) (c : Bool) : Processor :=
  { cpu with flags := { cpu.flags with c } }

end Processor

/-- Takes a branch if the condition holds. A taken branch costs one tick more, and another if it
leaves the page of the next instruction. -/
def branchIf (condition : Bool) (operand : Operand) : Exec Outcome := do
  let distance ← operand.distance
  if condition then
    let next := (← get).registers.pc
    let target := branchTarget next distance
    modify (·.jump target)
    return .proceed (if pageCrossed next target then 2 else 1)
  else
    return .proceed 0

/-- Applies a mnemonic to an operand. -/
def Mnemonic.perform (mnemonic : Mnemonic) (operand : Operand) : Exec Outcome := do
  match mnemonic with
  | .brk =>
    modify fun cpu => { cpu with flags := { cpu.flags with b := true } }
    return .halt
  | .nop => return .proceed 0
  | .clc =>
    modify (·.withCarry false)
    return .proceed 0
  | .sec =>
    modify (·.withCarry true)
    return .proceed 0
  | .lda =>
    let m ← operand.value
    modify (·.loadAccumulator m)
    return .proceed 0
  | .sta =>
    let cell ← operand.cell
    Exec.write cell.toUInt32 (← get).registers.a
    return .proceed 0
  | .adc =>
    let m ← operand.value
    modify (·.addWithCarry m)
    return .proceed 0
  | .cmp =>
    let m ← operand.value
    modify (·.compare m)
    return .proceed 0
  | .inc =>
    let cell ← operand.cell
    let result := (← Exec.read cell.toUInt32) + 1
    Exec.write cell.toUInt32 result
    modify fun cpu => { cpu with flags := cpu.flags.withResult result }
    return .proceed 0
  | .bcc => branchIf (!(← get).flags.c) operand
  | .bcs => branchIf (← get).flags.c operand

/-- Fetches an instruction that has been decoded, with its operand, and applies it. -/
def Instruction.execute (i : Instruction) : Exec (Operand × Outcome) := do
  discard Exec.fetch
  let operand ← i.mode.fetch
  let outcome ← i.mnemonic.perform operand
  return (operand, outcome)

end Cpu6502
