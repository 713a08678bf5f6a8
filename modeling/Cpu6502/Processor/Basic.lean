import Cpu6502.Processor.Flags
import Cpu6502.Processor.Memory
import Cpu6502.Processor.Registers
import Cpu6502.Processor.Ticks

/-!
# The processor

A processor is its registers, flags and memory together with the ticks since the last reset and
whether it may still execute. Only a reset lets a halted processor run again.
-/

namespace Cpu6502

/-- Whether the processor may execute further instructions. -/
inductive RunState where
  | running
  | halted
  deriving DecidableEq, Repr, Inhabited

/-- The name under which a run state is shown. -/
def RunState.name : RunState → String
  | running => "Running"
  | halted => "Halted"

/-- The whole state of the processor. -/
structure Processor where
  registers : Registers
  flags : Flags
  memory : Memory
  cycles : Ticks
  state : RunState
  deriving DecidableEq, Inhabited

namespace Processor

/-- The state after power-up: zeroed memory, clear flags, no ticks, and the program counter at
`origin`. -/
def powerUp (origin : UInt16) : Processor where
  registers := .powerUp origin
  flags := .clear
  memory := .zeroed
  cycles := .zero
  state := .running

/-- Returns to the power-up state, with the program counter at `origin`. -/
def reset (cpu : Processor) (origin : UInt16) : Processor where
  registers := .powerUp origin
  flags := .clear
  memory := cpu.memory.clear
  cycles := .zero
  state := .running

/-- Loads a program into memory and touches nothing else. -/
def load (cpu : Processor) (program : List UInt8) (origin : UInt16) :
    Except OutOfBounds Processor := do
  return { cpu with memory := ← cpu.memory.load origin.toUInt32 program }

/-- The packed flags. -/
def status (cpu : Processor) : UInt8 :=
  cpu.flags.toByte

/-- Holds after a BRK, until the next reset. -/
def isHalted (cpu : Processor) : Bool :=
  cpu.state = .halted

/-- Moves the program counter. -/
def jump (cpu : Processor) (target : UInt16) : Processor :=
  { cpu with registers := { cpu.registers with pc := target } }

/-- The form in which a processor is shown for inspection. -/
def inspect (cpu : Processor) : String :=
  s!"Processor \x7b regs: {cpu.registers.inspect}, flags: {cpu.flags.inspect}, " ++
    s!"memory: {cpu.memory.inspect}, cycles: {cpu.cycles.inspect}, state: {cpu.state.name} \x7d"

@[simp] theorem reset_eq (cpu : Processor) (origin : UInt16) : cpu.reset origin = powerUp origin :=
  rfl

end Processor

end Cpu6502
