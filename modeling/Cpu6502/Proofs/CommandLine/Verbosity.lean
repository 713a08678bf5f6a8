import Cpu6502.Proofs.CommandLine.Report

/-! # How much is shown

Two things on a command line say how much is to be seen of a run, and nothing else depends on them:

* a verbosity filters the error output: a line of the log is left out if its level is less important
  than those which the verbosity admits (`Report.FiltersLog`);
* a trace stands in front of everything else on the standard output (`Report.PutsInFront`).

Both follow from `Options.run_eq`: what a command goes through is the same, however much of it is
shown.
-/

namespace Cpu6502

/-! ## Levels of lines -/

/-- All the levels. -/
def Level.all : List Level :=
  [warn, info, debug, trace]

/-- Holds of a line that begins like the lines of the log which have this level. -/
def Level.marks (level : Level) (line : String) : Bool :=
  ("[" ++ Text.column 5 level.name ++ " ").toList.isPrefixOf line.toList

theorem Level.marks_line (level : Level) (record : Record) :
    level.marks record.line = decide (level = record.level) := by
  have hline : record.line = "[" ++ Text.column 5 record.level.name ++ " " ++
      (record.target ++ "] " ++ record.text) := by
    show "[" ++ Text.column 5 record.level.name ++ " " ++ record.target ++ "] " ++ record.text = _
    simp only [String.append_assoc]
  unfold marks
  rw [hline]
  generalize record.level = level', record.target ++ "] " ++ record.text = rest
  simp only [String.toList_append]
  cases level <;> cases level' <;> rfl

theorem Level.marks_error (level : Level) (message : String) :
    level.marks s!"error: {message}" = false := by
  unfold marks
  show ("[" ++ Text.column 5 level.name ++ " ").toList.isPrefixOf ("error: " ++ message).toList = _
  simp only [String.toList_append]
  rfl

namespace CommandLine

/-- Holds of a line of the error output that a verbosity lets through. -/
def isShownAt (verbosity : Nat) (line : String) : Bool :=
  Level.all.all fun level => level.isWithin (.ofVerbosity verbosity) || !level.marks line

theorem isShownAt_line (verbosity : Nat) (record : Record) :
    isShownAt verbosity record.line = record.level.isWithin (.ofVerbosity verbosity) := by
  unfold isShownAt
  simp only [Level.marks_line]
  generalize Level.ofVerbosity verbosity = threshold, record.level = level
  cases level <;> cases threshold <;> rfl

theorem isShownAt_error (verbosity : Nat) (message : String) :
    isShownAt verbosity s!"error: {message}" = true := by
  unfold isShownAt
  simp only [Level.marks_error, Bool.not_false, Bool.or_true]
  rfl

/-! ## Reports that show more or less -/

/-- A report is what another becomes at a verbosity: the error output lacks the lines that the
verbosity does not let through, and all else is the same. -/
structure Report.FiltersLog (verbosity : Nat) (full report : Report) : Prop where
  exit : report.exit = full.exit
  stdout : report.output.stdout = full.output.stdout
  stderr : report.output.stderr.toList = full.output.stderr.toList.filter (isShownAt verbosity)
  errors : report.output.errors = full.output.errors

/-- A report is another with some lines in front of its standard output. -/
structure Report.PutsInFront (lines : List String) (report report' : Report) : Prop where
  exit : report'.exit = report.exit
  stderr : report'.output.stderr = report.output.stderr
  stdout : report'.output.stdout.toList = lines ++ report.output.stdout.toList

namespace Options

variable {options : Options}

/-- The line that says why a command failed, if it did. -/
def failureLines (ending : Except Failure (Nat × List String)) : List String :=
  match ending with
  | .error failure => [s!"error: {failure.message}"]
  | .ok _ => []

/-- The lines that a command prints when it has come to its end. -/
def lastLines (ending : Except Failure (Nat × List String)) : List String :=
  match ending with
  | .error _ => []
  | .ok (_, lines) => lines

theorem toList_stderr_reportOf (options : Options) (proceedings : Proceedings) :
    (options.reportOf proceedings).output.stderr.toList =
      options.logLines proceedings.records ++ failureLines proceedings.ending := by
  rw [← toList_stderr_shownOf]
  unfold reportOf
  cases proceedings.ending with
  | error failure => exact Array.toList_push
  | ok done =>
    dsimp only
    rw [Output.stderr_printAll]
    exact (List.append_nil _).symm

theorem toList_stdout_reportOf (options : Options) (proceedings : Proceedings) :
    (options.reportOf proceedings).output.stdout.toList =
      options.traceLines proceedings.events ++ lastLines proceedings.ending := by
  rw [← toList_stdout_shownOf]
  unfold reportOf
  cases proceedings.ending with
  | error failure => exact (List.append_nil _).symm
  | ok done => exact Output.toList_stdout_printAll _ _

/-- At the highest verbosity every record is shown. -/
theorem logLines_full (options : Options) (records : List Record) :
    { options with verbosity := 3 }.logLines records = records.map Record.line := by
  unfold logLines
  rw [List.filter_eq_self.2]
  intro record _
  cases record.level <;> rfl

/-- A verbosity lets those lines of the log through that it has printed. -/
theorem filter_logLines (options : Options) (verbosity : Nat) (records : List Record) :
    ({ options with verbosity := 3 }.logLines records).filter (isShownAt verbosity) =
      { options with verbosity }.logLines records := by
  rw [logLines_full, List.filter_map]
  unfold logLines
  congr 2
  funext record
  exact isShownAt_line verbosity record

theorem filter_failureLines (verbosity : Nat) (ending : Except Failure (Nat × List String)) :
    (failureLines ending).filter (isShownAt verbosity) = failureLines ending := by
  cases ending with
  | error failure => exact List.filter_cons_of_pos (isShownAt_error verbosity failure.message)
  | ok done => rfl

theorem errors_reportOf (options : Options) (proceedings : Proceedings) :
    (options.reportOf proceedings).output.errors = failureLines proceedings.ending := by
  cases hending : proceedings.ending with
  | error failure => exact (fails_reportOf hending).errors
  | ok done => exact (succeeds_reportOf hending).errors

/-- What a command goes through does not depend on its verbosity, nor on whether it traces. -/
theorem run_shown (options : Options) (verbosity : Nat) (trace : Bool) (files : FileSystem) :
    { options with verbosity, trace }.run files =
      { options with verbosity, trace }.reportOf (options.proceedings files) :=
  run_eq _ files

theorem exit_reportOf_eq (options options' : Options) (proceedings : Proceedings) :
    (options.reportOf proceedings).exit = (options'.reportOf proceedings).exit := by
  unfold reportOf
  cases proceedings.ending with
  | error failure => rfl
  | ok done => rfl

end Options

/-! ## Options of command lines -/

/-- Holds of a part that asks for verbosity. -/
def Part.isVerbose : Part → Bool
  | verbose _ => true
  | _ => false

/-- The command lines are the same, but for the requests to be verbose, and the second makes so many
of them. -/
def ChangesVerbosity (arguments arguments' : List String) (verbosity : Nat) : Prop :=
  ∃ parts parts', partsOf arguments = some parts ∧ partsOf arguments' = some parts' ∧
    parts'.filter (!·.isVerbose) = parts.filter (!·.isVerbose) ∧ verbosityOf parts' = verbosity

/-- The second command line asks for a trace in some place, and is the same otherwise. -/
def AddsTrace (arguments arguments' : List String) : Prop :=
  ∃ before after, partsOf arguments = some (before ++ after) ∧
    partsOf arguments' = some (before ++ .flag .trace :: after)

section

variable {arguments arguments' : List String} {parts : List Part} {options : Options}
  {verbosity : Nat}

/-- If everything else is the same, only the trace and the verbosity change. -/
theorem Options.MadeOf.of_same {parts' : List Part} {trace : Bool} (h : options.MadeOf parts)
    (program : programOf? parts' = programOf? parts) (values : valuesOf parts' = valuesOf parts)
    (flags : ∀ flag, flag ≠ .trace → flagOf? parts' flag = flagOf? parts flag)
    (traces : flagOf? parts' .trace = some trace) :
    { options with trace, verbosity := verbosityOf parts' }.MadeOf parts' := by
  constructor
  · exact program.trans h.program
  · exact (flags .asm nofun).trans h.asm
  · unfold originOf?
    rw [values]
    exact h.origin
  · unfold limitOf?
    rw [values]
    exact h.limit
  · exact traces
  · exact (flags .json nofun).trans h.json
  · exact (flags .list nofun).trans h.list
  · exact (congrFun values .shown).trans h.shown
  · rfl

/-! ### Requests to be verbose -/

theorem programOf?_filter : programOf? (parts.filter (!·.isVerbose)) = programOf? parts := by
  unfold programOf?
  rw [List.filterMap_filter]
  congr
  funext part
  cases part <;> rfl

theorem valuesOf_filter : valuesOf (parts.filter (!·.isVerbose)) = valuesOf parts := by
  funext setting
  unfold valuesOf
  rw [List.filterMap_filter]
  congr
  funext part
  cases part <;> rfl

theorem flagOf?_filter : flagOf? (parts.filter (!·.isVerbose)) = flagOf? parts := by
  funext flag
  unfold flagOf?
  rw [List.count_filter]
  rfl

/-- The requests to be verbose change nothing but the verbosity. -/
theorem ChangesVerbosity.ofArguments? (h : ChangesVerbosity arguments arguments' verbosity)
    (hoptions : Options.ofArguments? arguments = some options) :
    Options.ofArguments? arguments' = some { options with verbosity } := by
  rcases h with ⟨parts, parts', hparts, hparts', hsame, rfl⟩
  rcases Options.ofArguments?_eq_some_iff.1 hoptions with ⟨given, hgiven, hmade⟩
  rw [hparts, Option.some.injEq] at hgiven
  subst hgiven
  -- the options are read off the parts that the command lines share
  have hflags : flagOf? parts' = flagOf? parts := by
    rw [← flagOf?_filter, hsame, flagOf?_filter]
  refine Options.ofArguments?_eq_some_iff.2 ⟨parts', hparts', hmade.of_same ?_ ?_ ?_ ?_⟩
  · rw [← programOf?_filter, hsame, programOf?_filter]
  · rw [← valuesOf_filter, hsame, valuesOf_filter]
  · intro flag _
    rw [hflags]
  · rw [hflags]
    exact hmade.trace

/-! ### Requests for a trace -/

theorem verbosityOf_insert_trace (before after : List Part) :
    verbosityOf (before ++ .flag .trace :: after) = verbosityOf (before ++ after) := by
  induction before with
  | nil => rfl
  | cons part rest ih =>
    cases part with
    | verbose count => exact congrArg (count + ·) ih
    | program text => exact ih
    | flag flag => exact ih
    | setting setting value => exact ih

theorem valuesOf_insert_trace (before after : List Part) :
    valuesOf (before ++ .flag .trace :: after) = valuesOf (before ++ after) := by
  funext setting
  unfold valuesOf
  rw [List.filterMap_append, List.filterMap_cons_none rfl, ← List.filterMap_append]

theorem programOf?_insert_trace (before after : List Part) :
    programOf? (before ++ .flag .trace :: after) = programOf? (before ++ after) := by
  unfold programOf?
  rw [List.filterMap_append, List.filterMap_cons_none rfl, ← List.filterMap_append]

theorem flagOf?_insert_trace (before after : List Part) {flag : Flag} (h : flag ≠ .trace) :
    flagOf? (before ++ .flag .trace :: after) flag = flagOf? (before ++ after) flag := by
  have hne : Part.flag .trace ≠ .flag flag := by
    intro hsame
    cases hsame
    exact h rfl
  unfold flagOf?
  rw [List.count_append, List.count_cons_of_ne hne, ← List.count_append]

theorem traced_of_insert_trace {before after : List Part}
    (h : flagOf? (before ++ after) .trace = some false) :
    flagOf? (before ++ .flag .trace :: after) .trace = some true := by
  have hnone : (before ++ after).count (.flag .trace) = 0 := by
    unfold flagOf? at h
    split at h
    · assumption
    · cases h
    · cases h
  have hone : (before ++ .flag .trace :: after).count (.flag .trace) = 1 := by
    rw [List.count_append, List.count_cons_self]
    rw [List.count_append] at hnone
    omega
  unfold flagOf?
  rw [hone]
  rfl

/-- A request for a trace changes nothing but that. -/
theorem AddsTrace.ofArguments? (h : AddsTrace arguments arguments')
    (hoptions : Options.ofArguments? arguments = some options) (untraced : options.trace = false) :
    Options.ofArguments? arguments' = some { options with trace := true } := by
  rcases h with ⟨before, after, hparts, hparts'⟩
  rcases Options.ofArguments?_eq_some_iff.1 hoptions with ⟨given, hgiven, hmade⟩
  rw [hparts, Option.some.injEq] at hgiven
  subst hgiven
  have hverbosity : options.verbosity = verbosityOf (before ++ .flag .trace :: after) := by
    rw [verbosityOf_insert_trace]
    exact hmade.verbosity.symm
  refine Options.ofArguments?_eq_some_iff.2 ⟨_, hparts', ?_⟩
  rw [hverbosity]
  apply hmade.of_same
  · exact programOf?_insert_trace before after
  · exact valuesOf_insert_trace before after
  · intro flag hflag
    exact flagOf?_insert_trace before after hflag
  · exact traced_of_insert_trace (untraced ▸ hmade.trace)

end

/-! ## Commands that show more or less -/

namespace Options

variable {options : Options}

theorem filtersLog (options : Options) (verbosity : Nat) (files : FileSystem) :
    Report.FiltersLog verbosity ({ options with verbosity := 3 }.run files)
      ({ options with verbosity }.run files) := by
  rw [run_shown options 3 options.trace, run_shown options verbosity options.trace]
  constructor
  · exact exit_reportOf_eq _ _ _
  · rw [← Array.toList_inj, toList_stdout_reportOf, toList_stdout_reportOf]
    rfl
  · rw [toList_stderr_reportOf, toList_stderr_reportOf, List.filter_append, filter_logLines,
      filter_failureLines]
  · rw [errors_reportOf, errors_reportOf]

theorem putsInFront (untraced : options.trace = false) (plain : options.json = false)
    (files : FileSystem) :
    Report.PutsInFront ((options.proceedings files).events.map TraceEvent.text)
      (options.run files) ({ options with trace := true }.run files) := by
  rw [run_eq options, run_shown options options.verbosity true]
  have hnone : options.traceLines (options.proceedings files).events = [] := by
    unfold traceLines
    rw [plain, untraced]
    rfl
  have hall : { options with trace := true }.traceLines (options.proceedings files).events =
      (options.proceedings files).events.map TraceEvent.text := by
    unfold traceLines
    rw [plain]
    rfl
  constructor
  · exact exit_reportOf_eq _ _ _
  · rw [← Array.toList_inj, toList_stderr_reportOf, toList_stderr_reportOf]
    rfl
  · rw [toList_stdout_reportOf, toList_stdout_reportOf, hall, hnone, List.nil_append]

theorem events_of_list (list : options.list = true) (files : FileSystem) :
    (options.proceedings files).events = [] := by
  unfold proceedings
  cases loadProgram files options.program options.asm with
  | error cause => rfl
  | ok given =>
    dsimp only
    unfold proceedingsOf
    cases (Processor.powerUp options.origin).load given.1 options.origin with
    | error cause => rfl
    | ok cpu =>
      dsimp only
      rw [if_pos list]

/-- There is no trace of text where JSON is printed, and none of a program that is listed. -/
theorem run_traced (h : options.json = true ∨ options.list = true) (files : FileSystem) :
    { options with trace := true }.run files = options.run files := by
  rw [run_eq options, run_shown options options.verbosity true]
  have hlines : { options with trace := true }.traceLines (options.proceedings files).events =
      options.traceLines (options.proceedings files).events := by
    rcases h with json | list
    · unfold traceLines
      dsimp only
      rw [if_pos json, if_pos json]
    · rw [events_of_list list, traceLines_nil, traceLines_nil]
  have hshown : { options with trace := true }.shownOf (options.proceedings files) =
      options.shownOf (options.proceedings files) := by
    unfold shownOf transcript
    rw [hlines]
    rfl
  unfold reportOf
  rw [hshown]

end Options

/-- A command line that asks for the log and for a run that comes upon an opcode without a row. -/
def loggedArguments : List String := ["-v", "--origin", "0200", "a9 02 ff"]

/-- The options that it stands for. -/
def loggedOptions : Options where
  program := "a9 02 ff"
  origin := 0x0200
  verbosity := 1

end CommandLine

end Cpu6502
