import Cpu6502.Instruction.Operand
import Cpu6502.Text.Hex

/-!
# The instruction table

Each implemented opcode has a row that gives its mnemonic, its addressing mode and its base cost.
The engine and the disassembler decode opcodes with the table, and the assembler finds opcodes in
it by mnemonic and mode, in either case of letters.

* `Instruction.decode?_opcode`: every row is the one that its opcode decodes to.
-/

namespace Cpu6502

/-- The operations of the implemented instructions. -/
inductive Mnemonic where
  | brk | nop | clc | sec | lda | sta | adc | cmp | inc | bcc | bcs
  deriving DecidableEq, Repr

namespace Mnemonic

/-- Every mnemonic. -/
def all : List Mnemonic :=
  [brk, nop, clc, sec, lda, sta, adc, cmp, inc, bcc, bcs]

/-- The mnemonic in upper case. -/
def name : Mnemonic → String
  | brk => "BRK"
  | nop => "NOP"
  | clc => "CLC"
  | sec => "SEC"
  | lda => "LDA"
  | sta => "STA"
  | adc => "ADC"
  | cmp => "CMP"
  | inc => "INC"
  | bcc => "BCC"
  | bcs => "BCS"

/-- The mnemonic that a text names in any mixture of upper- and lower-case ASCII letters. -/
def named? (text : String) : Option Mnemonic :=
  all.find? fun m => m.name.toList = text.toList.map Char.toUpper

end Mnemonic

/-- A row of the instruction table. -/
structure Instruction where
  opcode : UInt8
  mnemonic : Mnemonic
  mode : AddressingMode
  /-- The cost without branch penalties. -/
  cycles : UInt32
  deriving DecidableEq, Repr

namespace Instruction

/-- The implemented instructions. -/
def table : List Instruction :=
  [⟨0x00, .brk, .implied, 7⟩,
    ⟨0xEA, .nop, .implied, 2⟩,
    ⟨0x18, .clc, .implied, 2⟩,
    ⟨0x38, .sec, .implied, 2⟩,
    ⟨0xA9, .lda, .immediate, 2⟩,
    ⟨0xA5, .lda, .zeroPage, 3⟩,
    ⟨0x85, .sta, .zeroPage, 3⟩,
    ⟨0x69, .adc, .immediate, 2⟩,
    ⟨0x65, .adc, .zeroPage, 3⟩,
    ⟨0xC9, .cmp, .immediate, 2⟩,
    ⟨0xC5, .cmp, .zeroPage, 3⟩,
    ⟨0xE6, .inc, .zeroPage, 5⟩,
    ⟨0x90, .bcc, .relative, 2⟩,
    ⟨0xB0, .bcs, .relative, 2⟩]

/-- The number of bytes of an instruction, its opcode included. -/
def size (i : Instruction) : Nat :=
  1 + i.mode.operandLength

/-- The row of an opcode. -/
def decode? (opcode : UInt8) : Option Instruction :=
  table.find? (·.opcode = opcode)

/-- The row of a mnemonic, in any case of letters, in a mode. -/
def find? (name : String) (mode : AddressingMode) : Option Instruction := do
  let mnemonic ← Mnemonic.named? name
  table.find? fun i => i.mnemonic = mnemonic && i.mode = mode

/-- The modes of a mnemonic, in table order. -/
def modesOf (mnemonic : Mnemonic) : List AddressingMode :=
  (table.filter (·.mnemonic = mnemonic)).map (·.mode)

/-- The modes of the mnemonic that a text names; none if it names no mnemonic. -/
def modes (name : String) : List AddressingMode :=
  ((Mnemonic.named? name).map modesOf).getD []

/-- The form in which a row is shown for inspection. -/
def inspect (i : Instruction) : String :=
  s!"Instruction \x7b opcode: ${Hex.byte i.opcode}, mnemonic: \"{i.mnemonic.name}\", " ++
    s!"mode: {i.mode.inspect}, cycles: {i.cycles}, .. \x7d"

theorem decode?_opcode {i : Instruction} (h : i ∈ table) : decode? i.opcode = some i := by
  have all : ∀ i ∈ table, decode? i.opcode = some i := by decide
  exact all i h

theorem decode?_eq_some {opcode : UInt8} {i : Instruction} (h : decode? opcode = some i) :
    i ∈ table ∧ i.opcode = opcode :=
  ⟨List.mem_of_find?_eq_some h, by simpa using List.find?_some h⟩

end Instruction

end Cpu6502
