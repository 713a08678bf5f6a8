import Cpu6502.Engine.Limit
import Cpu6502.Instruction.Table
import Cpu6502.Processor.Flags
import Cpu6502.Program.Source
import Cpu6502.Text.Column

/-!
# The log

Every record has a level, a target that names the part of the system it comes from, and a text. A
reader chooses by a verbosity how much to see; each level includes those before it.
-/

namespace Cpu6502

/-- How important a record is, the most important level first. -/
inductive Level where
  | warn
  | info
  | debug
  | trace
  deriving DecidableEq, Repr

namespace Level

/-- The name of a level. -/
def name : Level → String
  | warn => "WARN"
  | info => "INFO"
  | debug => "DEBUG"
  | trace => "TRACE"

/-- The position of a level, from the most important on. -/
def rank : Level → Nat
  | warn => 0
  | info => 1
  | debug => 2
  | trace => 3

/-- The least important level that a verbosity admits. -/
def ofVerbosity : Nat → Level
  | 0 => warn
  | 1 => info
  | 2 => debug
  | _ => trace

/-- Holds when a threshold admits a level. -/
def isWithin (level threshold : Level) : Bool :=
  level.rank ≤ threshold.rank

end Level

/-- Something worth noting. -/
inductive Record where
  /-- A program was taken from a source, to be loaded at `origin`. -/
  | obtained (count : Nat) (source : Source) (origin : UInt16)
  /-- The processor was reset. -/
  | reset (origin : UInt16)
  /-- Bytes were loaded into memory. -/
  | loaded (count : Nat) (origin : UInt16)
  /-- A run began. -/
  | runStarted (origin : UInt16) (limit : Limit)
  /-- The instruction at `pc` was executed, and left this accumulator and these flags. -/
  | executed (pc : UInt16) (mnemonic : Mnemonic) (operand : Operand) (a : UInt8) (flags : Flags)
  /-- The BRK at `pc` halted the processor. -/
  | halted (pc : UInt16) (cycles : Ticks)
  /-- A run came to its limit. -/
  | limitReached (outcome : RunOutcome)
  /-- The opcode at `pc` has no row in the instruction table. -/
  | unimplementedOpcode (opcode : UInt8) (pc : UInt16)
  deriving DecidableEq, Repr

namespace Record

/-- The level of a record. -/
def level : Record → Level
  | obtained .. => .info
  | reset .. | loaded .. | runStarted .. | halted .. | limitReached .. => .debug
  | executed .. => .trace
  | unimplementedOpcode .. => .warn

/-- The part of the system that a record comes from. -/
def target : Record → String
  | obtained .. => "mos_run"
  | reset .. | loaded .. => "mos_6502::processor"
  | runStarted .. | executed .. | halted .. | limitReached .. | unimplementedOpcode .. =>
    "mos_6502::engine"

/-- What a record says. -/
def text : Record → String
  | obtained count source origin => s!"loaded {count} bytes ({source.name}) at ${Hex.word origin}"
  | reset origin => s!"reset, PC=${Hex.word origin}"
  | loaded count origin => s!"loaded {count} bytes at ${Hex.word origin}"
  | runStarted origin limit => s!"run from ${Hex.word origin}, limit {limit.inspect}"
  | executed pc mnemonic operand a flags =>
    s!"{Hex.word pc}  {mnemonic.name} {operand.inspect} -> A:{Hex.byte a} P:{flags.text}"
  | halted pc cycles => s!"halted at ${Hex.word pc} after {cycles.count} cycles"
  | limitReached outcome => s!"limit reached after {outcome.extent}"
  | unimplementedOpcode opcode pc =>
    s!"unimplemented opcode ${Hex.byte opcode} at ${Hex.word pc}"

/-- A record as a line of the log. -/
def line (record : Record) : String :=
  s!"[{Text.column 5 record.level.name} {record.target}] {record.text}"

end Record

end Cpu6502
