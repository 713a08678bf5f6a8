import Cpu6502.Assembly.Statement

/-!
# Layout

Lines are laid out in order: a label gets the number of bytes before it, and a statement takes as
many bytes as its instruction has. Once all lines are laid out, every statement can be encoded,
because a branch to a label needs only the two offsets: it is the distance from the end of the
branch to the label, which must fit into a signed byte.
-/

namespace Cpu6502

/-- A statement in its place. -/
structure Placed where
  /-- The line that it stands on. -/
  line : Nat
  /-- The number of bytes before it. -/
  offset : Nat
  statement : Statement
  deriving DecidableEq, Repr

/-- What has been laid out so far. -/
structure Layout where
  /-- The labels and their offsets, the latest first. -/
  labels : List (String × Nat) := []
  /-- The statements, in the order of the source. -/
  placed : Array Placed := #[]
  /-- The number of bytes of all statements. -/
  size : Nat := 0
  deriving DecidableEq, Repr

namespace Layout

/-- The offset of a label. -/
def offset? (layout : Layout) (name : String) : Option Nat :=
  layout.labels.lookup name

/-- Defines the label of a line, if it has one, at the present end. -/
def define (layout : Layout) : Option (List Char) → Except Defect Layout
  | none => .ok layout
  | some label =>
    let name := String.ofList label
    if !isIdentifier label then .error (.badLabel name)
    else if (layout.offset? name).isSome then .error (.duplicateLabel name)
    else .ok { layout with labels := (name, layout.size) :: layout.labels }

/-- Places a statement at the present end. -/
def place (layout : Layout) (line : Nat) (statement : Statement) : Layout :=
  { layout with
    placed := layout.placed.push ⟨line, layout.size, statement⟩
    size := layout.size + statement.instruction.size }

/-- Lays out a line: first its label, then its statement. -/
def addLine (layout : Layout) (number : Nat) (text : List Char) : Except Defect Layout := do
  let line := Line.ofText text
  let layout ← layout.define line.label
  match ← Statement.ofBody line.body with
  | none => return layout
  | some statement => return layout.place number statement

/-- Lays out lines in order, the first of which has the given number. -/
def addLines (layout : Layout) (number : Nat) : List (List Char) → Except AssemblyError Layout
  | [] => .ok layout
  | text :: rest =>
    match layout.addLine number text with
    | .error defect => .error ⟨number, defect⟩
    | .ok layout => layout.addLines (number + 1) rest

/-- The layout of a source. -/
def ofLines (lines : List (List Char)) : Except AssemblyError Layout :=
  addLines {} 1 lines

/-- The distance that a branch at `offset` needs to reach `target`. -/
def distance (offset target : Nat) : Int :=
  target - (offset + 2)

/-- The bytes of a placed statement. -/
def encode (layout : Layout) (placed : Placed) : Except AssemblyError (List UInt8) :=
  let opcode := placed.statement.instruction.opcode
  match placed.statement.argument with
  | .none => .ok [opcode]
  | .immediate value | .byte value => .ok [opcode, value]
  | .label name =>
    match layout.offset? name with
    | none => .error ⟨placed.line, .undefinedLabel name⟩
    | some target =>
      let distance := distance placed.offset target
      if -128 ≤ distance ∧ distance ≤ 127 then .ok [opcode, (Int8.ofInt distance).toUInt8]
      else .error ⟨placed.line, .branchOutOfRange name distance⟩

/-- The bytes of all statements, in order. -/
def chunks (layout : Layout) : Except AssemblyError (List (List UInt8)) :=
  layout.placed.toList.mapM layout.encode

end Layout

end Cpu6502
