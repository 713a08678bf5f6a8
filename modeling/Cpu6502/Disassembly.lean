import Cpu6502.Instruction.Table
import Cpu6502.Text.Column

/-!
# Disassembly

Code is an array of bytes indexed by address; a byte past its end reads as zero. What stands at an
address is an instruction of the table with its operand byte, or else a byte of data. A listing
shows the items that follow one another from an address on, one to a line.
-/

namespace Cpu6502

/-- The byte at an address. -/
def byteAt (code : Array UInt8) (address : UInt16) : UInt8 :=
  code[address.toNat]?.getD 0

/-- What stands at an address. -/
inductive Item where
  /-- An instruction, with the byte that follows its opcode. -/
  | instruction (row : Instruction) (operand : UInt8)
  /-- A byte that is no opcode. -/
  | data (value : UInt8)
  deriving DecidableEq, Repr

namespace Item

/-- The item at an address. -/
def decode (code : Array UInt8) (pc : UInt16) : Item :=
  match Instruction.decode? (byteAt code pc) with
  | some row => instruction row (byteAt code (pc + 1))
  | none => data (byteAt code pc)

/-- The number of bytes of an item. -/
def length : Item → Nat
  | instruction row _ => row.size
  | data _ => 1

/-- The item in assembly syntax, where a branch is shown with the address that it leads to from
`pc`. -/
def text (pc : UInt16) : Item → String
  | data value => ".byte $" ++ Hex.byte value
  | instruction row operand =>
    match row.mode with
    | .implied => row.mnemonic.name
    | .immediate => row.mnemonic.name ++ " #$" ++ Hex.byte operand
    | .zeroPage => row.mnemonic.name ++ " $" ++ Hex.byte operand
    | .relative =>
      let target := branchTarget (pc + UInt16.ofNat row.size) operand.toInt8
      row.mnemonic.name ++ " $" ++ Hex.word target

end Item

/-- The addresses of the items among `remaining` bytes from `pc` on, the first `inside` of which
still belong to the item before; they are added to those already found. -/
def itemStartsFrom (code : Array UInt8) :
    (remaining : Nat) → (pc : UInt16) → (inside : Nat) → Array UInt16 → Array UInt16
  | 0, _, _, found => found
  | remaining + 1, pc, inside + 1, found => itemStartsFrom code remaining (pc + 1) inside found
  | remaining + 1, pc, 0, found =>
    itemStartsFrom code remaining (pc + 1) ((Item.decode code pc).length - 1) (found.push pc)

theorem itemStartsFrom_eq_append (code : Array UInt8) (remaining : Nat) (pc : UInt16)
    (inside : Nat) (found : Array UInt16) :
    itemStartsFrom code remaining pc inside found =
      found ++ itemStartsFrom code remaining pc inside #[] := by
  induction remaining generalizing pc inside found with
  | zero => simp [itemStartsFrom]
  | succ remaining ih =>
    cases inside with
    | succ inside =>
      rw [itemStartsFrom, itemStartsFrom, ih]
    | zero =>
      rw [itemStartsFrom, itemStartsFrom, ih, ih _ _ (#[].push pc)]
      simp

/-- The addresses of the items that start among the `length` bytes from `start` on. -/
def itemStarts (code : Array UInt8) (start : UInt16) (length : Nat) : Array UInt16 :=
  itemStartsFrom code length start 0 #[]

/-- The bytes of the item at an address, separated by spaces. -/
def rawBytes (code : Array UInt8) (pc : UInt16) : String :=
  String.intercalate " " <|
    (List.range (Item.decode code pc).length).map fun i =>
      Hex.byte (byteAt code (pc + UInt16.ofNat i))

/-- A line of a listing: the address, the bytes and the text of an item, in columns. -/
def listingLine (code : Array UInt8) (pc : UInt16) : String :=
  Hex.word pc ++ "  " ++ Text.column 8 (rawBytes code pc) ++ (Item.decode code pc).text pc

/-- The lines for the items that start among the `length` bytes from `start` on. -/
def listing (code : Array UInt8) (start : UInt16) (length : Nat) : Array String :=
  (itemStarts code start length).map (listingLine code)

end Cpu6502
