import Cpu6502.Proofs.CommandLine
import Cpu6502.Proofs.Execution.Logging

/-! # What the command goes through

A command that is asked for more or less of the log, or to trace or not to trace, does the same and
shows more or less of it. `Options.proceedings` is all that it does: the events and the records of
its run, and how it ends. The report of the command is made from that (`Options.run_eq`).
-/

namespace Cpu6502

open Instruction

namespace CommandLine

/-! ## What is shown of a run -/

namespace Options

variable {options : Options} {files : FileSystem} {program : List UInt8} {source : Source}

/-- The lines of the trace, for the events of a run. -/
def traceLines (options : Options) (events : List TraceEvent) : List String :=
  if options.json then events.map fun event => event.toJson.render
  else if options.trace then events.map TraceEvent.text
  else []

/-- The lines of the log, for the records that are made. -/
def logLines (options : Options) (records : List Record) : List String :=
  (records.filter fun record => record.level.isWithin (.ofVerbosity options.verbosity)).map
    Record.line

/-- The output after some events and some records. -/
def transcript (options : Options) (output : Output) (events : List TraceEvent)
    (records : List Record) : Output where
  stdout := output.stdout ++ (options.traceLines events).toArray
  stderr := output.stderr ++ (options.logLines records).toArray

theorem traceLines_nil (options : Options) : options.traceLines [] = [] := by
  unfold traceLines
  split
  · rfl
  · split
    · rfl
    · rfl

theorem transcript_nil (options : Options) (output : Output) :
    options.transcript output [] [] = output := by
  unfold transcript
  rw [traceLines_nil]
  simp [logLines]

/-- Records may be made first, and events and other records follow. -/
theorem transcript_transcript (options : Options) (output : Output) (events : List TraceEvent)
    (records later : List Record) :
    options.transcript (options.transcript output [] records) events later =
      options.transcript output events (records ++ later) := by
  unfold transcript
  rw [traceLines_nil]
  simp [logLines]

/-- The engine of the command shows the events and the records that it is given. -/
theorem reflects_engine (options : Options) (output : Output) :
    Engine.scribe.Reflects options.engine
      fun seen => options.transcript output seen.1 seen.2 := by
  constructor
  · rintro event ⟨events, records⟩
    unfold Engine.notice engine transcript traceLines
    cases options.json with
    | true => simp [Engine.scribe, Engine.withTrace, Output.print]
    | false =>
      cases options.trace with
      | true => simp [Engine.scribe, Engine.withTrace, Output.print]
      | false => simp [Engine.scribe, Engine.withTrace]
  · rintro record ⟨events, records⟩
    unfold engine transcript logLines
    dsimp only [Engine.scribe, Engine.withTrace, Engine.logger]
    rw [List.filter_append]
    cases hlevel : record.level.isWithin (.ofVerbosity options.verbosity) with
    | true => simp [Output.complain, hlevel]
    | false => simp [hlevel]

/-- A run of the command prints what the transcript of its events and records says. -/
theorem run_engine (options : Options) (cpu : Processor) (origin : UInt16) (limit : Limit)
    (output : Output) :
    options.engine.run origin limit ⟨cpu, output⟩ =
      (cpu.course origin limit).result (options.transcript output
        (cpu.course origin limit).events (cpu.records origin limit)) := by
  have hrun := (reflects_engine options output).run origin limit ⟨cpu, ([], [])⟩
  have hstart : (⟨cpu, ([], [])⟩ : Session (List TraceEvent × List Record)).map
      (fun seen => options.transcript output seen.1 seen.2) = ⟨cpu, output⟩ := by
    unfold Session.map
    dsimp only
    rw [transcript_nil]
  rw [hstart, Engine.run_scribe] at hrun
  rw [← hrun]
  unfold Course.result
  cases (cpu.course origin limit).outcome with
  | ok outcome => rfl
  | error fault => rfl

theorem noted_engine (options : Options) (records : List Record) (output : Output) :
    options.engine.noted records output = options.transcript output [] records := by
  induction records generalizing output with
  | nil => exact (transcript_nil options output).symm
  | cons record rest ih =>
    show options.engine.noted rest (options.engine.log record output) = _
    have hlog := (reflects_engine options output).log record ([], [])
    dsimp only [Engine.scribe, Engine.withTrace, Engine.logger] at hlog
    rw [transcript_nil] at hlog
    rw [ih, ← hlog, transcript_transcript, List.nil_append, List.singleton_append]

end Options

/-! ## The whole command -/

/-- What a command goes through. -/
structure Proceedings where
  /-- The events of its run. -/
  events : List TraceEvent
  /-- The records that it makes. -/
  records : List Record
  /-- Why it fails, or its exit status and the lines that it prints at the end. -/
  ending : Except Failure (Nat × List String)

namespace Options

variable {options : Options} {files : FileSystem} {program : List UInt8} {source : Source}

/-- How a command ends that has made a run. -/
def ending (options : Options) (course : Course) : Except Failure (Nat × List String) :=
  match course.outcome with
  | .error fault => .error (.run fault)
  | .ok outcome =>
    match options.shown.mapM (valueShown course.cpu) with
    | .error failure => .error failure
    | .ok values =>
      .ok (if outcome.isHalted then 0 else 2, options.summary course.cpu outcome values)

/-- The records that a command makes before it loads its program. -/
def recordsBefore (options : Options) (program : List UInt8) (source : Source) : List Record :=
  [.obtained program.length source options.origin, .reset options.origin]

/-- What a command goes through that has its program. -/
def proceedingsOf (options : Options) (program : List UInt8) (source : Source) : Proceedings :=
  let records := options.recordsBefore program source
  match (Processor.powerUp options.origin).load program options.origin with
  | .error cause => ⟨[], records, .error (.place options.origin (.memory cause))⟩
  | .ok cpu =>
    let records := records ++ [.loaded program.length options.origin]
    if options.list then
      ⟨[], records, .ok (0, (listing cpu.memory.bytes options.origin program.length).toList)⟩
    else
      let course := cpu.course options.origin options.limit
      ⟨course.events, records ++ cpu.records options.origin options.limit, options.ending course⟩

/-- What a command goes through. -/
def proceedings (options : Options) (files : FileSystem) : Proceedings :=
  match loadProgram files options.program options.asm with
  | .error cause => ⟨[], [], .error (.load cause)⟩
  | .ok (program, source) => options.proceedingsOf program source

/-- The output of a command, before it says how it ends. -/
def shownOf (options : Options) (proceedings : Proceedings) : Output :=
  options.transcript {} proceedings.events proceedings.records

/-- The report of a command. -/
def reportOf (options : Options) (proceedings : Proceedings) : Report :=
  match proceedings.ending with
  | .error failure => ⟨1, (options.shownOf proceedings).complain s!"error: {failure.message}"⟩
  | .ok (exit, lines) => ⟨exit, (options.shownOf proceedings).printAll lines⟩

end Options

section Stages

variable {σ α β ε ε' : Type} {x : EStateM ε σ α} {f : α → EStateM ε σ β} {s u : σ} {a : α} {e : ε}

theorem bind_of_ok (h : x s = .ok a u) : (x >>= f) s = f a u := by
  show EStateM.bind x f s = _
  unfold EStateM.bind
  rw [h]

theorem bind_of_error (h : x s = .error e u) : (x >>= f) s = .error e u := by
  show EStateM.bind x f s = _
  unfold EStateM.bind
  rw [h]

theorem adaptExcept_of_error {f : ε → ε'} (h : x s = .error e u) :
    x.adaptExcept f s = .error (f e) u := by
  unfold EStateM.adaptExcept
  rw [h]

theorem get_apply (s : Session Output) : (get : Command (Session Output)) s = .ok s s := rfl

end Stages

namespace Options

variable {options : Options} {files : FileSystem} {program : List UInt8} {source : Source}

/-- The command runs the loaded program and reports its end. -/
theorem runLoaded_apply (options : Options) (cpu : Processor) (output : Output) :
    let course := cpu.course options.origin options.limit
    let output' := options.transcript output course.events
      (cpu.records options.origin options.limit)
    options.runLoaded ⟨cpu, output⟩ =
      match options.ending course with
      | .error failure => .error failure ⟨course.cpu, output'⟩
      | .ok (exit, lines) => .ok exit ⟨course.cpu, output'.printAll lines⟩ := by
  intro course output'
  have hrun : options.engine.run options.origin options.limit ⟨cpu, output⟩ =
      course.result output' := options.run_engine cpu options.origin options.limit output
  unfold runLoaded ending
  unfold Course.result at hrun
  cases houtcome : course.outcome with
  | error fault =>
    rw [houtcome] at hrun
    exact bind_of_error (adaptExcept_of_error hrun)
  | ok outcome =>
    rw [houtcome] at hrun
    rw [bind_of_ok (adaptExcept_eq_ok_iff.2 hrun), bind_of_ok (get_apply _)]
    dsimp only
    cases options.shown.mapM (valueShown course.cpu) with
    | error failure => exact bind_of_error rfl
    | ok values =>
      have hvalues : ofExcept (.ok values) (⟨course.cpu, output'⟩ : Session Output) =
        .ok values ⟨course.cpu, output'⟩ := rfl
      rw [bind_of_ok hvalues, bind_of_ok (forM_print _ _)]
      rfl

/-- A command that has its program resets the processor, loads the program and goes on. -/
theorem command_of_obtained
    (h : loadProgram files options.program options.asm = .ok (program, source)) :
    options.command files ⟨.powerUp 0, {}⟩ =
      (((options.engine.load program options.origin).adaptExcept (.place options.origin)) >>=
        fun _ =>
          if options.list then do
            (listing (← get).cpu.memory.bytes options.origin program.length).toList.forM print
            return 0
          else options.runLoaded)
        ⟨.powerUp options.origin,
          options.transcript {} [] (options.recordsBefore program source)⟩ := by
  have hobtained : ofExcept ((loadProgram files options.program options.asm).mapError .load)
      (⟨.powerUp 0, {}⟩ : Session Output) = .ok (program, source) ⟨.powerUp 0, {}⟩ := by
    rw [h]
    rfl
  rw [← noted_engine]
  exact bind_of_ok hobtained

theorem run_of_obtained
    (h : loadProgram files options.program options.asm = .ok (program, source)) :
    options.run files = options.reportOf (options.proceedingsOf program source) := by
  let begun := options.transcript {} [] (options.recordsBefore program source)
  have hload := options.engine.load_apply program options.origin
    ⟨.powerUp options.origin, begun⟩
  have hcommand := command_of_obtained h
  unfold run proceedingsOf
  dsimp only at hload ⊢
  cases hplaced : (Processor.powerUp options.origin).load program options.origin with
  | error cause =>
    rw [hplaced] at hload
    rw [hcommand, bind_of_error (adaptExcept_of_error hload)]
    rfl
  | ok cpu =>
    -- the output when the program has been loaded
    have hlog : options.engine.log (.loaded program.length options.origin) begun =
        options.transcript {} [] (options.recordsBefore program source ++
          [.loaded program.length options.origin]) := by
      rw [← transcript_transcript, ← noted_engine options [_]]
      rfl
    rw [hplaced] at hload
    dsimp only at hload
    rw [hlog] at hload
    rw [bind_of_ok (adaptExcept_eq_ok_iff.2 hload)] at hcommand
    rw [hcommand]
    cases options.list with
    | true =>
      rw [if_pos rfl, bind_of_ok (get_apply _), bind_of_ok (forM_print _ _)]
      rfl
    | false =>
      rw [if_neg Bool.false_ne_true, runLoaded_apply, transcript_transcript]
      dsimp only
      unfold reportOf shownOf
      cases hending : options.ending (cpu.course options.origin options.limit) with
      | error failure => rfl
      | ok done => rfl

/-- The report of a command is made from what it goes through. -/
theorem run_eq (options : Options) (files : FileSystem) :
    options.run files = options.reportOf (options.proceedings files) := by
  unfold proceedings
  cases hprogram : loadProgram files options.program options.asm with
  | error cause =>
    have hcommand : options.command files ⟨.powerUp 0, {}⟩ =
        .error (.load cause) ⟨.powerUp 0, {}⟩ := by
      refine bind_of_error ?_
      rw [hprogram]
      rfl
    unfold run reportOf shownOf
    rw [hcommand, transcript_nil]
  | ok given => exact run_of_obtained hprogram

end Options

end CommandLine

end Cpu6502
