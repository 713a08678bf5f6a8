import Cpu6502.Instruction.Table
import Cpu6502.Processor.Basic
import Cpu6502.Text.Column

/-!
# Trace events

A trace event is a snapshot of the processor just before it executes an instruction.
-/

namespace Cpu6502

/-- The instruction about to be executed, and the state it will be executed in. -/
structure TraceEvent where
  /-- The address of the opcode. -/
  pc : UInt16
  opcode : UInt8
  mnemonic : Mnemonic
  registers : Registers
  flags : Flags
  /-- The tick count before the instruction. -/
  cycles : Ticks
  deriving DecidableEq, Repr

namespace TraceEvent

/-- The event of a processor that is about to execute a row of the table. -/
def capture (cpu : Processor) (i : Instruction) : TraceEvent where
  pc := cpu.registers.pc
  opcode := i.opcode
  mnemonic := i.mnemonic
  registers := cpu.registers
  flags := cpu.flags
  cycles := cpu.cycles

/-- The event as a line of text. -/
def text (event : TraceEvent) : String :=
  let r := event.registers
  Hex.word event.pc ++ "  " ++ Hex.byte event.opcode ++ "  " ++
    Text.column 4 event.mnemonic.name ++ " A:" ++ Hex.byte r.a ++ " X:" ++ Hex.byte r.x ++
    " Y:" ++ Hex.byte r.y ++ " SP:" ++ Hex.byte r.sp ++ " P:" ++ event.flags.text ++
    " CYC:" ++ toString event.cycles.count.toNat

end TraceEvent

end Cpu6502
