import Cpu6502.Assembly.Layout

/-!
# Assembly

Turns assembly source into machine code. Branches are relative, so the code may be loaded anywhere.
-/

namespace Cpu6502

/-- The machine code of a source. Defects in the layout of a line, the earliest line first, are
reported before labels that branches cannot reach. -/
def assemble (source : String) : Except AssemblyError (List UInt8) := do
  let layout ← Layout.ofLines (Text.lines source.toList)
  return (← layout.chunks).flatten

end Cpu6502
