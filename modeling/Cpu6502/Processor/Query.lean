import Cpu6502.Processor.Basic
import Cpu6502.Processor.Value
import Cpu6502.Text.Number

/-!
# Queries

The state of a processor is read by path: a register, a flag, the cycle counter and the run state
each have a path of their own, and `memory.` followed by a hexadecimal address, with or without a
dollar sign, names a cell. A query reads the processor and cannot change it.
-/

namespace Cpu6502

namespace Processor

/-- The paths that every processor answers, with what they read. -/
def fields : List (String × (Processor → Value)) :=
  [("a", fun cpu => .byte cpu.registers.a),
    ("x", fun cpu => .byte cpu.registers.x),
    ("y", fun cpu => .byte cpu.registers.y),
    ("sp", fun cpu => .byte cpu.registers.sp),
    ("pc", fun cpu => .word cpu.registers.pc),
    ("p", fun cpu => .byte cpu.status),
    ("flags.n", fun cpu => .bool cpu.flags.n),
    ("flags.v", fun cpu => .bool cpu.flags.v),
    ("flags.b", fun cpu => .bool cpu.flags.b),
    ("flags.d", fun cpu => .bool cpu.flags.d),
    ("flags.i", fun cpu => .bool cpu.flags.i),
    ("flags.z", fun cpu => .bool cpu.flags.z),
    ("flags.c", fun cpu => .bool cpu.flags.c),
    ("cycles", fun cpu => .count cpu.cycles.count),
    ("halted", fun cpu => .bool cpu.isHalted)]

/-- The paths of the fields, in the order in which they are listed. -/
def queryPaths : List String :=
  fields.map (·.1)

/-- The digits of an address in a path, without the dollar sign that may introduce them. -/
def cellDigits : List Char → List Char
  | '$' :: digits => digits
  | digits => digits

/-- The address in a path that names a memory cell. -/
def cellPath? (path : String) : Option UInt16 :=
  match path.toList with
  | 'm' :: 'e' :: 'm' :: 'o' :: 'r' :: 'y' :: '.' :: rest =>
    (Number.word (cellDigits rest)).toOption
  | _ => none

/-- The value at a path, if the path names one. -/
def query (cpu : Processor) (path : String) : Option Value :=
  match fields.lookup path with
  | some read => some (read cpu)
  | none => (cellPath? path).map fun address => .byte (cpu.memory.get address)

end Processor

end Cpu6502
