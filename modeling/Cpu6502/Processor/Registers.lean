/-!
# Registers

The accumulator, the index registers, the stack pointer and the program counter.
-/

namespace Cpu6502

/-- The register file. -/
structure Registers where
  /-- Accumulator. -/
  a : UInt8
  /-- First index register. -/
  x : UInt8
  /-- Second index register. -/
  y : UInt8
  /-- Stack pointer, an offset into page one. -/
  sp : UInt8
  /-- Program counter. -/
  pc : UInt16
  deriving DecidableEq, Repr, Inhabited

namespace Registers

/-- The registers after a reset, which leaves the stack pointer three below the top of its page. -/
def powerUp (origin : UInt16) : Registers where
  a := 0
  x := 0
  y := 0
  sp := 0xFD
  pc := origin

/-- The form in which registers are shown for inspection. -/
def inspect (r : Registers) : String :=
  s!"Registers \x7b a: {r.a}, x: {r.x}, y: {r.y}, sp: {r.sp}, pc: {r.pc} \x7d"

end Registers

end Cpu6502
