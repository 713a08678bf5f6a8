import Cpu6502.CommandLine.Options
import Cpu6502.Disassembly
import Cpu6502.Engine.Run
import Cpu6502.Json.State
import Cpu6502.Processor.Query
import Cpu6502.Program.Load

/-!
# The command

Loads a program into a fresh processor and lists it, or runs it and reports the state it ends in.
The exit status is 0 if the program was listed or halted, 2 if it came to its limit, and 1 if
something failed, in which case the last line of the error output says what.
-/

namespace Cpu6502.CommandLine

/-- The lines printed so far. -/
structure Output where
  stdout : Array String := #[]
  stderr : Array String := #[]
  deriving DecidableEq, Repr

/-- Adds a line to the standard output. -/
def Output.print (output : Output) (line : String) : Output :=
  { output with stdout := output.stdout.push line }

/-- Adds a line to the error output. -/
def Output.complain (output : Output) (line : String) : Output :=
  { output with stderr := output.stderr.push line }

/-- What a stream carries: its lines, each ended by a line feed. A line that holds a line feed is read
back as several. -/
def streamText (lines : Array String) : String :=
  String.join (lines.toList.map (· ++ "\n"))

/-- Why the command failed. -/
inductive Failure where
  /-- There is no program. -/
  | load (cause : LoadError)
  /-- The program does not fit into memory. -/
  | place (origin : UInt16) (cause : Fault)
  /-- The run ended in a fault. -/
  | run (cause : Fault)
  /-- A value to be shown has a path that means nothing. -/
  | unknownValue (path : String)
  deriving DecidableEq, Repr

/-- The wording of a failure. -/
def Failure.message : Failure → String
  | load cause => cause.message
  | place origin cause => s!"loading program at ${Hex.word origin}: {cause.message}"
  | run cause => cause.message
  | unknownValue path =>
    s!"unknown value {Text.quoted path}; expected one of " ++
      String.intercalate ", " Processor.queryPaths ++ " or memory.XXXX"

/-- A computation of the command. -/
abbrev Command := EStateM Failure (Session Output)

/-- Prints a line. -/
def print (line : String) : Command Unit :=
  modify fun session => { session with seen := session.seen.print line }

/-- What watches the run: the trace goes to the standard output, and the records that the verbosity
admits go to the error output. -/
def Options.engine (options : Options) : Engine Output where
  hook :=
    if options.json then some fun event output => output.print event.toJson.render
    else if options.trace then some fun event output => output.print event.text
    else none
  log record output :=
    if record.level.isWithin (.ofVerbosity options.verbosity) then output.complain record.line
    else output

/-- The value to be shown for a path. -/
def valueShown (cpu : Processor) (path : String) : Except Failure (String × String) :=
  match cpu.query path with
  | some value => .ok (path, value.render)
  | none => .error (.unknownValue path)

/-- The report of a run in JSON. -/
def summaryJson (cpu : Processor) (outcome : RunOutcome) (values : List (String × String)) :
    Json :=
  .object [("outcome".toList, .ofString (if outcome.isHalted then "halted" else "limit")),
    ("steps".toList, .ofNat outcome.steps), ("cycles".toList, .ofNat outcome.cycles.count.toNat),
    ("registers".toList, cpu.registers.toJson), ("flags".toList, cpu.flags.toJson),
    ("status".toList, .ofNat cpu.status.toNat),
    ("values".toList,
      .array (values.map fun (path, value) => .array [.ofString path, .ofString value]))]

/-- The report of a run in words. -/
def summaryLines (cpu : Processor) (outcome : RunOutcome) (values : List (String × String)) :
    List String :=
  let r := cpu.registers
  let ending := if outcome.isHalted then "halted" else "limit reached"
  s!"{ending} after {outcome.extent}" ::
    (s!"PC:{Hex.word r.pc} A:{Hex.byte r.a} X:{Hex.byte r.x} Y:{Hex.byte r.y} " ++
      s!"SP:{Hex.byte r.sp} P:{cpu.flags.text} ({Hex.byte cpu.status})") ::
    values.map fun (path, value) => s!"{path} = {value}"

/-- The lines that report a run. -/
def Options.summary (options : Options) (cpu : Processor) (outcome : RunOutcome)
    (values : List (String × String)) : List String :=
  if options.json then [(summaryJson cpu outcome values).render]
  else summaryLines cpu outcome values

/-- Ends a computation that has no processor. -/
def ofExcept {α : Type} : Except Failure α → Command α
  | .ok value => pure value
  | .error failure => throw failure

/-- Runs the loaded program and reports its end; gives the exit status. -/
def Options.runLoaded (options : Options) : Command Nat := do
  let outcome ← (options.engine.run options.origin options.limit).adaptExcept .run
  let cpu := (← get).cpu
  let values ← ofExcept (options.shown.mapM (valueShown cpu))
  (options.summary cpu outcome values).forM print
  return if outcome.isHalted then 0 else 2

/-- Carries out the command; gives the exit status. -/
def Options.command (options : Options) (files : FileSystem) : Command Nat := do
  let loaded := loadProgram files options.program options.asm
  let (program, source) ← ofExcept (loaded.mapError .load)
  (options.engine.record (.obtained program.length source options.origin)).adaptExcept .run
  (options.engine.reset options.origin).adaptExcept .run
  (options.engine.load program options.origin).adaptExcept (.place options.origin)
  if options.list then
    (listing (← get).cpu.memory.bytes options.origin program.length).toList.forM print
    return 0
  else
    options.runLoaded

/-- What the command leaves behind. -/
structure Report where
  exit : Nat
  output : Output
  deriving DecidableEq, Repr

/-- Carries out the command on a fresh processor. -/
def Options.run (options : Options) (files : FileSystem) : Report :=
  match options.command files ⟨.powerUp 0, {}⟩ with
  | .ok exit session => ⟨exit, session.seen⟩
  | .error failure session => ⟨1, session.seen.complain s!"error: {failure.message}"⟩

end Cpu6502.CommandLine
