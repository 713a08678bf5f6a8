import Cpu6502.CommandLine.Command

/-!
# The program

Reads the command line and the file it names, carries the command out and prints what it leaves
behind. A command line that is not well formed ends with exit status 2.
-/

namespace Cpu6502.CommandLine

/-- How the program is called. -/
def usage : String :=
  "usage: [--asm] [--origin ADDRESS] [--max-steps N | --max-cycles N] [--trace] [--json] " ++
    "[--list] [--show PATH]... [-v]... PROGRAM"

/-- The file at a path, if there is one that can be read. -/
def entryAt (path : String) : IO Entry := do
  try
    return .file (← IO.FS.readBinFile path)
  catch _ =>
    return .absent .notFound

/-- Runs the program; gives its exit status. -/
def execute (arguments : List String) : IO UInt32 := do
  match Options.ofArguments? arguments with
  | none =>
    IO.eprintln usage
    return 2
  | some options =>
    let entry ← entryAt options.program
    let report := options.run fun _ => entry
    IO.print (streamText report.output.stdout)
    IO.eprint (streamText report.output.stderr)
    return report.exit.toUInt32

end Cpu6502.CommandLine

def main (arguments : List String) : IO UInt32 :=
  Cpu6502.CommandLine.execute arguments
