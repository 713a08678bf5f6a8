import Cpu6502.Instruction.Fault
import Cpu6502.Processor.Basic

/-!
# Computations on a processor

`Exec` is the monad of computations that read and change one processor and may end in a fault. A
fault keeps the state that the computation had reached, so it can be said what a failed
computation has touched.

* `Exec.read_toUInt32`, `Exec.write_toUInt32`, `Exec.fetch_apply`: at addresses of 16 bits, reading,
  writing and fetching have no faults.
-/

namespace Cpu6502

/-- A computation on a processor. -/
abbrev Exec := EStateM Fault Processor

namespace Exec

/-- The cell of an address, or a fault if there is none. -/
def cell (address : UInt32) : Exec UInt16 :=
  match cell? address with
  | .ok cell => pure cell
  | .error cause => throw (.memory cause)

/-- Reads the byte at an address. -/
def read (address : UInt32) : Exec UInt8 := do
  let cell ← cell address
  return (← get).memory.get cell

/-- Writes the byte at an address. -/
def write (address : UInt32) (value : UInt8) : Exec Unit := do
  let cell ← cell address
  modify fun cpu => { cpu with memory := cpu.memory.set cell value }

/-- Reads the byte at the program counter and advances past it, from the last address to the
first. -/
def fetch : Exec UInt8 := do
  let pc := (← get).registers.pc
  let value ← read pc.toUInt32
  modify (·.jump (pc + 1))
  return value

/-- Adds the cost of an instruction to the tick count. -/
def charge (cost : UInt32) : Exec Unit := do
  match (← get).cycles.addCost? cost with
  | some cycles => modify fun cpu => { cpu with cycles }
  | none => throw .tickOverflow

/-- Stops the processor until its next reset. -/
def halt : Exec Unit :=
  modify fun cpu => { cpu with state := .halted }

/-! ## Addresses of 16 bits are always in memory -/

@[simp] theorem read_toUInt32 (a : UInt16) (cpu : Processor) :
    read a.toUInt32 cpu = .ok (cpu.memory.get a) cpu := by
  simp only [read, cell, Memory.cell?_toUInt32]
  rfl

@[simp] theorem write_toUInt32 (a : UInt16) (value : UInt8) (cpu : Processor) :
    write a.toUInt32 value cpu = .ok () { cpu with memory := cpu.memory.set a value } := by
  simp only [write, cell, Memory.cell?_toUInt32]
  rfl

@[simp] theorem fetch_apply (cpu : Processor) :
    fetch cpu = .ok (cpu.memory.get cpu.registers.pc) (cpu.jump (cpu.registers.pc + 1)) := by
  have h := read_toUInt32 cpu.registers.pc cpu
  unfold fetch
  show EStateM.bind (read cpu.registers.pc.toUInt32) _ cpu = _
  rw [EStateM.bind, h]
  rfl

end Exec

/-- Fetches the operand bytes of a mode. -/
def AddressingMode.fetch : AddressingMode → Exec Operand
  | .implied => return .none
  | .immediate => return .literal (← Exec.fetch)
  | .zeroPage => return .address (← Exec.fetch).toUInt16
  | .relative => return .offset (← Exec.fetch).toInt8

/-- The byte that an operand refers to: the literal, or what the cell holds. -/
def Operand.value : Operand → Exec UInt8
  | .literal value => return value
  | .address cell => Exec.read cell.toUInt32
  | operand => throw (.noValue operand)

/-- The address of the cell that an operand refers to. -/
def Operand.cell : Operand → Exec UInt16
  | .address cell => return cell
  | operand => throw (.noAddress operand)

/-- The distance that a branch operand gives. -/
def Operand.distance : Operand → Exec Int8
  | .offset distance => return distance
  | operand => throw (.noDistance operand)

end Cpu6502
