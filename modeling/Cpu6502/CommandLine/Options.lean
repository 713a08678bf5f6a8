import Cpu6502.Engine.Limit
import Cpu6502.Program.Address

/-!
# Command-line options

The arguments are first read as parts: the program, flags, settings with a value, and requests to
be more verbose. The value of a setting is joined to its name by an equals sign or is the next
argument, which then must not look like an option. After two dashes on their own, no argument is
an option. The parts make up the options if no flag and no setting but `--show` is repeated, if at
most one limit is given, and if there is exactly one program.
-/

namespace Cpu6502.CommandLine

/-- What to run, and how. -/
structure Options where
  /-- A file name, or a list of hexadecimal bytes. -/
  program : String
  /-- The file holds assembly text. -/
  asm : Bool := false
  /-- Where to load the program and to start it. -/
  origin : UInt16 := 0
  /-- When to end a run that does not halt. -/
  limit : Limit := .steps 10000
  /-- Print every instruction before it is executed. -/
  trace : Bool := false
  /-- Print JSON. -/
  json : Bool := false
  /-- Print a listing of the program and do not run it. -/
  list : Bool := false
  /-- The paths of the values to print after the run. -/
  shown : List String := []
  /-- How much of the log to print. -/
  verbosity : Nat := 0
  deriving DecidableEq, Repr

/-- An option that stands on its own. -/
inductive Flag where
  | asm | trace | json | list
  deriving DecidableEq, Repr

/-- An option that takes a value. -/
inductive Setting where
  | origin | maxSteps | maxCycles | shown
  deriving DecidableEq, Repr

/-- A part of a command line. -/
inductive Part where
  | program (text : String)
  | flag (flag : Flag)
  | setting (setting : Setting) (value : String)
  | verbose (count : Nat)
  deriving DecidableEq, Repr

/-- What a long name stands for. -/
inductive LongName where
  | flag (flag : Flag)
  | setting (setting : Setting)
  | verbose

/-- The long names, without the dashes. -/
def longNames : List (String × LongName) :=
  [("asm", .flag .asm), ("trace", .flag .trace), ("json", .flag .json), ("list", .flag .list),
    ("origin", .setting .origin), ("max-steps", .setting .maxSteps),
    ("max-cycles", .setting .maxCycles), ("show", .setting .shown), ("verbose", .verbose)]

/-- How an argument looks, before its meaning is known. -/
inductive Shape where
  /-- Two dashes: no more options follow. -/
  | separator
  /-- An argument without a leading dash, or a dash on its own. -/
  | plain
  /-- Two dashes and a name, and perhaps an equals sign and a value. -/
  | long (name : String) (value : Option String)
  /-- A dash and letters. -/
  | short (letters : List Char)

/-- The shape of an argument. -/
def Shape.ofArgument (argument : String) : Shape :=
  match argument.toList with
  | ['-', '-'] => separator
  | '-' :: '-' :: rest =>
    let name := String.ofList (rest.takeWhile (· ≠ '='))
    match rest.dropWhile (· ≠ '=') with
    | [] => long name none
    | _ :: value => long name (some (String.ofList value))
  | ['-'] => plain
  | '-' :: letters => short letters
  | _ => plain

/-- Holds of the arguments that can be the value of the setting before them. -/
def Shape.isPlain : Shape → Bool
  | plain => true
  | _ => false

/-- Reads the parts of a command line, where the first argument is the value of a setting if one
is still without. -/
def partsAfter : Option Setting → List String → Option (List Part)
  | none, [] => some []
  | some _, [] => none
  | some setting, value :: rest =>
    if (Shape.ofArgument value).isPlain then
      (partsAfter none rest).map (.setting setting value :: ·)
    else none
  | none, argument :: rest =>
    match Shape.ofArgument argument with
    | .separator => some (rest.map .program)
    | .plain => (partsAfter none rest).map (.program argument :: ·)
    | .short letters =>
      if letters.all (· = 'v') then (partsAfter none rest).map (.verbose letters.length :: ·)
      else none
    | .long name value =>
      match longNames.lookup name, value with
      | some (.flag flag), none => (partsAfter none rest).map (.flag flag :: ·)
      | some .verbose, none => (partsAfter none rest).map (.verbose 1 :: ·)
      | some (.setting setting), none => partsAfter (some setting) rest
      | some (.setting setting), some value =>
        (partsAfter none rest).map (.setting setting value :: ·)
      | _, _ => none

/-- Reads the parts of a command line. -/
def partsOf (arguments : List String) : Option (List Part) :=
  partsAfter none arguments

/-- The values of a setting, in order. -/
def valuesOf (parts : List Part) (setting : Setting) : List String :=
  parts.filterMap fun
    | .setting s value => if s = setting then some value else none
    | _ => none

/-- Whether a flag is given, unless it is repeated. -/
def flagOf? (parts : List Part) (flag : Flag) : Option Bool :=
  match parts.count (.flag flag) with
  | 0 => some false
  | 1 => some true
  | _ => none

/-- Reads a count of up to 64 bits. -/
def countOf? (text : String) : Option Nat :=
  (Number.read 10 (UInt64.size - 1) text.toList).toOption

/-- The origin that is given, or the default one. -/
def originOf? (parts : List Part) : Option UInt16 :=
  match valuesOf parts .origin with
  | [] => some 0
  | [text] => (addressOfText text).toOption
  | _ => none

/-- The limit that is given, or the default one. -/
def limitOf? (parts : List Part) : Option Limit :=
  match valuesOf parts .maxSteps, valuesOf parts .maxCycles with
  | [], [] => some (.steps 10000)
  | [text], [] => (countOf? text).map .steps
  | [], [text] => (countOf? text).map .cycles
  | _, _ => none

/-- The program, if there is exactly one. -/
def programOf? (parts : List Part) : Option String :=
  match parts.filterMap (fun | .program text => some text | _ => none) with
  | [program] => some program
  | _ => none

/-- How verbose to be: the sum of all requests. -/
def verbosityOf : List Part → Nat
  | [] => 0
  | .verbose count :: rest => count + verbosityOf rest
  | _ :: rest => verbosityOf rest

/-- The options that the parts make up. -/
def Options.ofParts? (parts : List Part) : Option Options := do
  return {
    program := ← programOf? parts
    asm := ← flagOf? parts .asm
    origin := ← originOf? parts
    limit := ← limitOf? parts
    trace := ← flagOf? parts .trace
    json := ← flagOf? parts .json
    list := ← flagOf? parts .list
    shown := valuesOf parts .shown
    verbosity := verbosityOf parts }

/-- The options of a command line, if it is well formed. -/
def Options.ofArguments? (arguments : List String) : Option Options := do
  Options.ofParts? (← partsOf arguments)

end Cpu6502.CommandLine
