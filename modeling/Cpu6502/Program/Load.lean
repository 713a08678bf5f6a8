import Cpu6502.Assembly
import Cpu6502.Program.Bytes
import Cpu6502.Program.Source

/-!
# Finding the program

A program is named by a file, which holds machine code or assembly text, or else is given as a list
of hexadecimal bytes in place of the name. An argument that names a file is never taken for bytes.
-/

namespace Cpu6502

/-- Why no program could be had. -/
inductive LoadError where
  /-- The assembly file is not text. -/
  | notText (path : String)
  /-- The assembly file does not assemble. -/
  | assembling (path : String) (cause : AssemblyError)
  /-- There is no assembly file. -/
  | noAssembly (argument : String)
  /-- The file of machine code cannot be used. -/
  | binary (path : String) (cause : ProgramError)
  /-- The argument names no file and lists no bytes. -/
  | noBytes (argument : String) (cause : ProgramError)
  deriving DecidableEq, Repr

namespace LoadError

/-- What was being done. -/
def context : LoadError → String
  | notText path => s!"reading {path}"
  | assembling path _ => s!"assembling {path}"
  | noAssembly argument => s!"assembly source {Text.quoted argument} not found"
  | binary path _ => s!"loading {path}"
  | noBytes argument _ => s!"{Text.quoted argument} is neither a file nor a hex byte list"

/-- What went wrong with it, unless that says it all. -/
def cause? : LoadError → Option String
  | notText _ => some "stream did not contain valid UTF-8"
  | assembling _ cause => some cause.message
  | noAssembly _ => none
  | binary _ cause | noBytes _ cause => some cause.message

/-- The wording of the error. -/
def message (e : LoadError) : String :=
  match e.cause? with
  | some cause => s!"{e.context}: {cause}"
  | none => e.context

end LoadError

/-- The assembled contents of a file. -/
def assembleFile (path : String) (contents : ByteArray) : Except LoadError (List UInt8) :=
  match String.fromUTF8? contents with
  | none => .error (.notText path)
  | some source => (assemble source).mapError (.assembling path)

/-- The program that an argument stands for, and the form it is given in. -/
def loadProgram (files : FileSystem) (argument : String) (isAssembly : Bool) :
    Except LoadError (List UInt8 × Source) :=
  match files argument, isAssembly with
  | .file contents, true => (assembleFile argument contents).map (·, .assembly)
  | .file _, false => ((bytesOfFile files argument).mapError (.binary argument)).map (·, .binary)
  | _, true => .error (.noAssembly argument)
  | _, false => ((bytesOfHex argument).mapError (.noBytes argument)).map (·, .hex)

end Cpu6502
