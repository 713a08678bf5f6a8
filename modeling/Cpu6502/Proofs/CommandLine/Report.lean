import Cpu6502.Proofs.CommandLine.Lines
import Cpu6502.Proofs.Execution.Limits

/-! # What the command reports

`Options.Delivers` says what a command leaves behind, whatever it is asked to do: where it stops,
what it has printed by then, what it says of a failure, and its exit status. It speaks of the course
of the run and of the processor that the run leaves, and not of how the command comes to them.
-/

namespace Cpu6502

open Instruction

/-- The ticks of a run from power-up cannot be exhausted before this limit. -/
def Limit.HasRoom : Limit → Prop
  | .steps count => 7 * count < UInt64.size
  | .cycles count => count + 7 ≤ UInt64.size

namespace CommandLine

/-! ## Successes and failures -/

/-- Holds of a line that reports a failure. -/
def isErrorLine (line : String) : Bool :=
  "error:".toList.isPrefixOf line.toList

/-- The lines of the error output that report a failure. -/
def Output.errors (output : Output) : List String :=
  output.stderr.toList.filter isErrorLine

/-- The command failed after it had printed some lines, and says why in one line. -/
structure Report.Fails (report : Report) (printed : List String) (failure : Failure) : Prop where
  exit : report.exit = 1
  stdout : report.output.stdout.toList = printed
  errors : report.output.errors = [s!"error: {failure.message}"]

/-- The command printed these lines and did not fail. -/
structure Report.Succeeds (report : Report) (exit : Nat) (printed : List String) : Prop where
  exit : report.exit = exit
  stdout : report.output.stdout.toList = printed
  errors : report.output.errors = []

/-! ## Reports of runs -/

/-- The line that says how a run ended. -/
def endLine (outcome : RunOutcome) : String :=
  match outcome.ending with
  | .halted => s!"halted after {outcome.steps} steps, {outcome.cycles.count} cycles"
  | .limitReached => s!"limit reached after {outcome.steps} steps, {outcome.cycles.count} cycles"

/-- The line that shows the registers and the flags. -/
def stateLine (cpu : Processor) : String :=
  let r := cpu.registers
  s!"PC:{Hex.word r.pc} A:{Hex.byte r.a} X:{Hex.byte r.x} Y:{Hex.byte r.y} " ++
    s!"SP:{Hex.byte r.sp} P:{cpu.flags.text} ({Hex.byte cpu.status})"

/-- The exit status after a run. -/
def exitOf (outcome : RunOutcome) : Nat :=
  match outcome.ending with
  | .halted => 0
  | .limitReached => 2

/-- The lines that a run has printed at its end, where `values` are those of the paths to be
shown. -/
def Options.closing (options : Options) (cpu : Processor) (outcome : RunOutcome)
    (values : List Value) : List String :=
  if options.json then
    [(summaryJson cpu outcome (options.shown.zip (values.map Value.render))).render]
  else
    endLine outcome :: stateLine cpu ::
      List.zipWith (fun path value => s!"{path} = {value.render}") options.shown values

/-- What is reported of a run. First come the lines of the trace, one for each event. A fault comes
before a path that means nothing, and only the first of these is reported. -/
inductive Options.ReportsRun (options : Options) (course : Course) (report : Report) : Prop where
  | failed {fault : Fault} (outcome : course.outcome = .error fault)
      (oneLine : OneLine fault.message)
      (fails : report.Fails (options.traceLines course.events) (.run fault))
  | unknown {outcome : RunOutcome} {before after : List String} {path : String}
      (outcome : course.outcome = .ok outcome) (shown : options.shown = before ++ path :: after)
      (known : ∀ path ∈ before, (course.cpu.query path).isSome)
      (unknown : course.cpu.query path = none)
      (oneLine : OneLine (Failure.unknownValue path).message)
      (fails : report.Fails (options.traceLines course.events) (.unknownValue path))
  | finished {outcome : RunOutcome} {values : List Value} (ended : course.outcome = .ok outcome)
      (known : options.shown.map course.cpu.query = values.map some)
      (succeeds : report.Succeeds (exitOf outcome)
        (options.traceLines course.events ++ options.closing course.cpu outcome values))

/-- What a command leaves behind. -/
inductive Options.Delivers (options : Options) (files : FileSystem) (report : Report) : Prop where
  /-- No program could be had. -/
  | missing {cause : LoadError}
      (missing : loadProgram files options.program options.asm = .error cause)
      (fails : report.Fails [] (.load cause))
  /-- The program does not fit into memory. -/
  | misplaced {program : List UInt8} {source : Source} {cause : OutOfBounds}
      (obtained : loadProgram files options.program options.asm = .ok (program, source))
      (misplaced : (Processor.powerUp options.origin).load program options.origin = .error cause)
      (fails : report.Fails [] (.place options.origin (.memory cause)))
  /-- The program is listed, whatever else is asked for. -/
  | listed {program : List UInt8} {source : Source} {cpu : Processor}
      (obtained : loadProgram files options.program options.asm = .ok (program, source))
      (loaded : (Processor.powerUp options.origin).load program options.origin = .ok cpu)
      (list : options.list = true)
      (succeeds : report.Succeeds 0
        (listing cpu.memory.bytes options.origin program.length).toList)
  /-- The program is run. -/
  | ran {program : List UInt8} {source : Source} {cpu : Processor}
      (obtained : loadProgram files options.program options.asm = .ok (program, source))
      (loaded : (Processor.powerUp options.origin).load program options.origin = .ok cpu)
      (list : options.list = false)
      (faithful : (cpu.course options.origin options.limit).Faithful cpu options.origin)
      (room : options.limit.HasRoom →
        (cpu.course options.origin options.limit).outcome ≠ .error .tickOverflow)
      (reports : options.ReportsRun (cpu.course options.origin options.limit) report)

/-- The limit that the parts of a command line ask for. -/
inductive LimitGiven (parts : List Part) : Limit → Prop where
  | cycles {text : String} {count : Nat} (given : valuesOf parts .maxCycles = [text])
      (number : countOf? text = some count) : LimitGiven parts (.cycles count)
  | steps {text : String} {count : Nat} (otherwise : valuesOf parts .maxCycles = [])
      (given : valuesOf parts .maxSteps = [text]) (number : countOf? text = some count) :
      LimitGiven parts (.steps count)
  | default (otherwise : valuesOf parts .maxCycles = [])
      (given : valuesOf parts .maxSteps = []) : LimitGiven parts (.steps 10000)

/-! ## Lines of the error output -/

/-- A line of the log starts with a bracket. -/
theorem isErrorLine_line (record : Record) : isErrorLine record.line = false := by
  unfold isErrorLine
  show "error:".toList.isPrefixOf ("[" ++ Text.column 5 record.level.name ++ " " ++ record.target ++
    "] " ++ record.text).toList = false
  simp only [String.toList_append, List.append_assoc]
  rfl

theorem isErrorLine_error (message : String) : isErrorLine s!"error: {message}" = true := by
  unfold isErrorLine
  show "error:".toList.isPrefixOf ("error: " ++ message).toList = true
  rw [String.toList_append]
  rfl

namespace Options

variable {options : Options} {files : FileSystem} {program : List UInt8} {proceedings : Proceedings}

theorem toList_stdout_shownOf (options : Options) (proceedings : Proceedings) :
    (options.shownOf proceedings).stdout.toList = options.traceLines proceedings.events := by
  simp [shownOf, transcript]

theorem toList_stderr_shownOf (options : Options) (proceedings : Proceedings) :
    (options.shownOf proceedings).stderr.toList = options.logLines proceedings.records := by
  simp [shownOf, transcript]

/-- The log reports no failures. -/
theorem errors_shownOf (options : Options) (proceedings : Proceedings) :
    (options.shownOf proceedings).errors = [] := by
  unfold Output.errors
  rw [toList_stderr_shownOf, List.filter_eq_nil_iff]
  intro line hline
  obtain ⟨record, -, rfl⟩ := List.mem_map.1 hline
  rw [isErrorLine_line]
  exact Bool.false_ne_true

/-! ## Reports of what the command goes through -/

theorem fails_reportOf {failure : Failure} (h : proceedings.ending = .error failure) :
    (options.reportOf proceedings).Fails (options.traceLines proceedings.events) failure := by
  have herrors := errors_shownOf options proceedings
  unfold reportOf
  rw [h]
  refine ⟨rfl, toList_stdout_shownOf options proceedings, ?_⟩
  unfold Output.errors at herrors ⊢
  unfold Output.complain
  rw [Array.toList_push, List.filter_append, herrors, List.nil_append,
    List.filter_cons_of_pos (isErrorLine_error _), List.filter_nil]

theorem succeeds_reportOf {exit : Nat} {lines : List String}
    (h : proceedings.ending = .ok (exit, lines)) :
    (options.reportOf proceedings).Succeeds exit
      (options.traceLines proceedings.events ++ lines) := by
  have herrors := errors_shownOf options proceedings
  unfold reportOf
  rw [h]
  refine ⟨rfl, ?_, ?_⟩
  · rw [Output.toList_stdout_printAll, toList_stdout_shownOf]
  · unfold Output.errors at herrors ⊢
    rw [Output.stderr_printAll, herrors]

/-- Either all paths have values, or there is a first one that means nothing. -/
theorem mapM_valueShown (cpu : Processor) (paths : List String) :
    (∃ values : List Value, paths.map cpu.query = values.map some ∧
        paths.mapM (valueShown cpu) = .ok (paths.zip (values.map Value.render))) ∨
      ∃ before path after, paths = before ++ path :: after ∧
        (∀ path ∈ before, (cpu.query path).isSome) ∧ cpu.query path = none ∧
          paths.mapM (valueShown cpu) = .error (.unknownValue path) := by
  induction paths with
  | nil => exact Or.inl ⟨[], rfl, rfl⟩
  | cons first rest ih =>
    rw [List.mapM_cons]
    cases hfirst : cpu.query first with
    | none =>
      right
      refine ⟨[], first, rest, rfl, nofun, hfirst, ?_⟩
      unfold valueShown
      rw [hfirst]
      rfl
    | some value =>
      have hshown : valueShown cpu first = .ok (first, value.render) := by
        unfold valueShown
        rw [hfirst]
      rw [hshown]
      rcases ih with ⟨values, hvalues, hrest⟩ | ⟨before, path, after, rfl, hknown, hunknown, hrest⟩
      · left
        refine ⟨value :: values, ?_, ?_⟩
        · rw [List.map_cons, List.map_cons, hfirst, hvalues]
        · rw [hrest]
          rfl
      · right
        refine ⟨first :: before, path, after, rfl, ?_, hunknown, ?_⟩
        · intro p hp
          rcases List.mem_cons.1 hp with rfl | hp
          · rw [hfirst]
            rfl
          · exact hknown p hp
        · rw [hrest]
          rfl

theorem summary_eq_closing (options : Options) (cpu : Processor) (outcome : RunOutcome)
    (values : List Value) :
    options.summary cpu outcome (options.shown.zip (values.map Value.render)) =
      options.closing cpu outcome values := by
  have hending : (if outcome.isHalted then "halted" else "limit reached") ++ " after " ++
      outcome.extent = endLine outcome := by
    unfold RunOutcome.isHalted endLine
    cases outcome.ending with
    | halted => rfl
    | limitReached => rfl
  have hvalues : ∀ line : String × String → String,
      (∀ path value, line (path, value) = s!"{path} = {value}") →
        (options.shown.zip (values.map Value.render)).map line =
          List.zipWith (fun path value => s!"{path} = {value.render}") options.shown values := by
    intro line hline
    rw [List.zip_map_right, List.map_map, List.zip, List.map_zipWith]
    simp only [Function.comp_apply, Prod.map_apply, hline]
    rfl
  unfold summary closing
  split
  · rfl
  · unfold summaryLines
    dsimp only
    rw [hvalues _ fun _ _ => rfl, ← hending]
    rfl

theorem reportsRun {cpu : Processor} {origin : UInt16} {course : Course}
    (faithful : course.Faithful cpu origin) (hevents : proceedings.events = course.events)
    (hending : proceedings.ending = options.ending course) :
    options.ReportsRun course (options.reportOf proceedings) := by
  unfold ending at hending
  cases houtcome : course.outcome with
  | error fault =>
    have honeLine : OneLine fault.message := by
      cases faithful with
      | idle halted => cases houtcome
      | ended running chronicle steps cycles => cases houtcome
      | stuck running chronicle stuck =>
        cases houtcome
        exact oneLine_unimplementedOpcode _ _
      | exhausted running chronicle describes full =>
        cases houtcome
        decide
    rw [houtcome] at hending
    exact .failed houtcome honeLine (hevents ▸ fails_reportOf hending)
  | ok outcome =>
    rw [houtcome] at hending
    rcases mapM_valueShown course.cpu options.shown with
      ⟨values, hvalues, hshown⟩ | ⟨before, path, after, hpaths, hknown, hunknown, hshown⟩
    · rw [hshown] at hending
      dsimp only at hending
      rw [summary_eq_closing] at hending
      have hexit : (if outcome.isHalted then 0 else 2) = exitOf outcome := by
        unfold RunOutcome.isHalted exitOf
        cases outcome.ending with
        | halted => rfl
        | limitReached => rfl
      rw [hexit] at hending
      exact .finished houtcome hvalues (hevents ▸ succeeds_reportOf hending)
    · rw [hshown] at hending
      exact .unknown houtcome hpaths hknown hunknown (oneLine_unknownValue path)
        (hevents ▸ fails_reportOf hending)

/-- The tick count of a loaded processor is zero, so a run has all the room that there is. -/
theorem ne_tickOverflow_of_hasRoom {origin : UInt16} {cpu : Processor}
    (h : (Processor.powerUp origin).load program origin = .ok cpu) {limit : Limit}
    (room : limit.HasRoom) : (cpu.course origin limit).outcome ≠ .error .tickOverflow := by
  obtain ⟨memory, rfl⟩ := Engine.load_eq_ok h
  cases limit with
  | steps count =>
    refine Processor.course_steps_ne_tickOverflow ?_ origin
    show 0 + 7 * count < UInt64.size
    rw [Nat.zero_add]
    exact room
  | cycles count => exact Processor.course_cycles_ne_tickOverflow _ room origin

/-- Every command delivers what its options ask for. -/
theorem delivers (options : Options) (files : FileSystem) :
    options.Delivers files (options.run files) := by
  rw [run_eq]
  unfold proceedings
  cases hprogram : loadProgram files options.program options.asm with
  | error cause => exact .missing hprogram (options.traceLines_nil ▸ fails_reportOf rfl)
  | ok given =>
    obtain ⟨program, source⟩ := given
    dsimp only
    unfold proceedingsOf
    cases hloaded : (Processor.powerUp options.origin).load program options.origin with
    | error cause =>
      exact .misplaced hprogram hloaded (options.traceLines_nil ▸ fails_reportOf rfl)
    | ok cpu =>
      cases hlist : options.list with
      | true =>
        refine .listed hprogram hloaded hlist ?_
        have hlines :=
          List.nil_append (listing cpu.memory.bytes options.origin program.length).toList
        rw [← hlines, ← options.traceLines_nil]
        exact succeeds_reportOf rfl
      | false =>
        have faithful := Engine.course_faithful cpu options.origin options.limit
        exact .ran hprogram hloaded hlist faithful (ne_tickOverflow_of_hasRoom hloaded)
          (reportsRun faithful rfl rfl)

/-! ## Options of command lines -/

/-- The options are made up of these parts. -/
structure MadeOf (options : Options) (parts : List Part) : Prop where
  program : programOf? parts = some options.program
  asm : flagOf? parts .asm = some options.asm
  origin : originOf? parts = some options.origin
  limit : limitOf? parts = some options.limit
  trace : flagOf? parts .trace = some options.trace
  json : flagOf? parts .json = some options.json
  list : flagOf? parts .list = some options.list
  shown : valuesOf parts .shown = options.shown
  verbosity : verbosityOf parts = options.verbosity

theorem ofParts?_eq_some_iff {parts : List Part} :
    ofParts? parts = some options ↔ options.MadeOf parts := by
  unfold ofParts?
  constructor
  · intro h
    rcases Option.bind_eq_some_iff.1 h with ⟨program, hprogram, h⟩
    rcases Option.bind_eq_some_iff.1 h with ⟨asm, hasm, h⟩
    rcases Option.bind_eq_some_iff.1 h with ⟨origin, horigin, h⟩
    rcases Option.bind_eq_some_iff.1 h with ⟨limit, hlimit, h⟩
    rcases Option.bind_eq_some_iff.1 h with ⟨trace, htrace, h⟩
    rcases Option.bind_eq_some_iff.1 h with ⟨json, hjson, h⟩
    rcases Option.bind_eq_some_iff.1 h with ⟨list, hlist, h⟩
    cases h
    exact ⟨hprogram, hasm, horigin, hlimit, htrace, hjson, hlist, rfl, rfl⟩
  · intro h
    rw [h.program, h.asm, h.origin, h.limit, h.trace, h.json, h.list, h.shown, h.verbosity]
    rfl

theorem ofArguments?_eq_some_iff {arguments : List String} :
    ofArguments? arguments = some options ↔
      ∃ parts, partsOf arguments = some parts ∧ options.MadeOf parts := by
  unfold ofArguments?
  simp only [← ofParts?_eq_some_iff]
  exact Option.bind_eq_some_iff

/-- The options hold the limit that is given, or the default one. -/
theorem limitGiven_of_limitOf? {parts : List Part} {limit : Limit}
    (h : limitOf? parts = some limit) : LimitGiven parts limit := by
  unfold limitOf? at h
  split at h
  · next hsteps hcycles =>
    cases h
    exact .default hcycles hsteps
  · next text hsteps hcycles =>
    obtain ⟨count, hcount, rfl⟩ := Option.map_eq_some_iff.1 h
    exact .steps hcycles hsteps hcount
  · next text hsteps hcycles =>
    obtain ⟨count, hcount, rfl⟩ := Option.map_eq_some_iff.1 h
    exact .cycles hcycles hcount
  · cases h

theorem limitGiven {arguments : List String} (h : Options.ofArguments? arguments = some options) :
    ∃ parts, partsOf arguments = some parts ∧ LimitGiven parts options.limit := by
  rcases ofArguments?_eq_some_iff.1 h with ⟨parts, hparts, hmade⟩
  exact ⟨parts, hparts, limitGiven_of_limitOf? hmade.limit⟩

/-! ## Lines of the standard output -/

theorem oneLine_traceLines (options : Options) (events : List TraceEvent) :
    ∀ line ∈ options.traceLines events, OneLine line := by
  unfold traceLines
  split
  · intro line hline
    obtain ⟨event, -, rfl⟩ := List.mem_map.1 hline
    exact event.flat_toJson.render
  · split
    · intro line hline
      obtain ⟨event, -, rfl⟩ := List.mem_map.1 hline
      exact oneLine_text event
    · exact nofun

theorem oneLine_endLine (outcome : RunOutcome) : OneLine (endLine outcome) := by
  have hcycles : OneLine (toString outcome.cycles.count) := .nat outcome.cycles.count.toNat
  unfold endLine
  cases outcome.ending with
  | halted | limitReached =>
    simp only [OneLine.append_iff, OneLine.toString_iff, OneLine.nat, hcycles, and_true]
    decide

theorem oneLine_stateLine (cpu : Processor) : OneLine (stateLine cpu) := by
  unfold stateLine
  simp only [OneLine.append_iff, OneLine.toString_iff, OneLine.word, OneLine.byte, OneLine.flags,
    and_true]
  decide

theorem oneLine_values {cpu : Processor} {paths : List String} {values : List Value}
    (known : paths.map cpu.query = values.map some) :
    ∀ line ∈ List.zipWith (fun path value => s!"{path} = {value.render}") paths values,
      OneLine line := by
  induction paths generalizing values with
  | nil => exact nofun
  | cons path paths ih =>
    cases values with
    | nil => exact nofun
    | cons value values =>
      obtain ⟨hfirst, hrest⟩ := List.cons.inj known
      obtain ⟨hpath, hvalue⟩ := Processor.oneLine_of_query hfirst
      refine List.forall_mem_cons.2 ⟨?_, ih hrest⟩
      show OneLine (path ++ " = " ++ value.render)
      exact OneLine.append_iff.2 ⟨OneLine.append_iff.2 ⟨hpath, by decide⟩, hvalue⟩

theorem oneLine_closing {cpu : Processor} {values : List Value} (outcome : RunOutcome)
    (known : options.shown.map cpu.query = values.map some) :
    ∀ line ∈ options.closing cpu outcome values, OneLine line := by
  unfold closing
  split
  · intro line hline
    rw [List.mem_singleton.1 hline]
    exact (flat_summaryJson cpu outcome _).render
  · exact List.forall_mem_cons.2 ⟨oneLine_endLine outcome,
      List.forall_mem_cons.2 ⟨oneLine_stateLine cpu, oneLine_values known⟩⟩

theorem Delivers.oneLine {report : Report} (h : options.Delivers files report) :
    ∀ line ∈ report.output.stdout.toList, OneLine line := by
  cases h with
  | missing missing fails =>
    rw [fails.stdout]
    exact nofun
  | misplaced obtained misplaced fails =>
    rw [fails.stdout]
    exact nofun
  | listed obtained loaded list succeeds =>
    rw [succeeds.stdout]
    intro line hline
    rw [listing, Array.toList_map] at hline
    obtain ⟨pc, -, rfl⟩ := List.mem_map.1 hline
    exact oneLine_listingLine _ pc
  | ran obtained loaded list faithful room reports =>
    cases reports with
    | failed outcome oneLine fails =>
      rw [fails.stdout]
      exact oneLine_traceLines options _
    | unknown outcome shown known unknown oneLine fails =>
      rw [fails.stdout]
      exact oneLine_traceLines options _
    | finished ended known succeeds =>
      rw [succeeds.stdout]
      exact List.forall_mem_append.2 ⟨oneLine_traceLines options _, oneLine_closing _ known⟩

end Options

/-- A command line with a limit of ticks and a value to be shown. -/
def shownArguments : List String := ["--max-cycles", "9", "--show", "a", "a9 02 00"]

/-- The options that it stands for. -/
def shownOptions : Options where
  program := "a9 02 00"
  limit := .cycles 9
  shown := ["a"]

end CommandLine

end Cpu6502
