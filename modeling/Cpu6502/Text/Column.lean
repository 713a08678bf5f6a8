/-!
# Columns

Tabular output pads its cells on the right, so that the next cell starts in a fixed column.
-/

namespace Cpu6502.Text

/-- The text, followed by as many spaces as it lacks characters to `width`. -/
def column (width : Nat) (text : String) : String :=
  text ++ String.ofList (List.replicate (width - text.length) ' ')

end Cpu6502.Text
