/-!
# Where a program comes from
-/

namespace Cpu6502

/-- The three forms in which a program may be given. -/
inductive Source where
  /-- A file of machine code. -/
  | binary
  /-- A file of assembly text. -/
  | assembly
  /-- Bytes in hexadecimal, given in place of a file name. -/
  | hex
  deriving DecidableEq, Repr

/-- The name of a form. -/
def Source.name : Source → String
  | binary => "Binary"
  | assembly => "Assembly"
  | hex => "Hex"

end Cpu6502
