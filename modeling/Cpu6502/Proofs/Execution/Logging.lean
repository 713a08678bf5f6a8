import Cpu6502.Proofs.Execution.Operation
import Cpu6502.Proofs.Execution.Tracing

/-! # The log of a run

A run writes into the log that it begins, then a record for every instruction, and at last how it
ends. The records are those of the course: there are as many of the instructions as there are
events, and the last of them all names the outcome or the fault.

* `Engine.exists_listed`: what is listed of some instructions, by induction on them.
* `Engine.course_logged`: the records of a run, by how it ends.
-/

namespace Cpu6502

open Instruction

variable {σ τ : Type}

/-! ## The records of a run -/

/-- The engine that lists the records. -/
def Engine.logger : Engine (List Record) where
  log record records := records ++ [record]

/-- The engine that lists the events and the records. -/
def Engine.scribe : Engine (List TraceEvent × List Record) :=
  logger.withTrace fun event events => events ++ [event]

/-- The records that a run makes. -/
def Processor.records (cpu : Processor) (origin : UInt16) (limit : Limit) : List Record :=
  (Watched.left (Engine.logger.run origin limit ⟨cpu, []⟩)).seen

namespace Engine

theorem run_logger (cpu : Processor) (origin : UInt16) (limit : Limit) :
    logger.run origin limit ⟨cpu, []⟩ =
      (cpu.course origin limit).result (cpu.records origin limit) := by
  obtain ⟨seen, hrun⟩ := logger.exists_run_eq_result origin limit ⟨cpu, []⟩
  have hseen : cpu.records origin limit = seen := by
    unfold Processor.records
    rw [hrun]
    unfold Course.result
    cases (cpu.course origin limit).outcome with
    | ok outcome => rfl
    | error fault => rfl
  rw [hrun, hseen]

theorem notices_append (seen events : List TraceEvent) :
    notices (fun event events => events ++ [event]) seen events = seen ++ events := by
  induction events generalizing seen with
  | nil => exact (List.append_nil seen).symm
  | cons event rest ih =>
    show notices _ (seen ++ [event]) rest = _
    rw [ih, List.append_assoc, List.singleton_append]

/-- The engine that lists the events and the records lists those of the run. -/
theorem run_scribe (cpu : Processor) (origin : UInt16) (limit : Limit) :
    scribe.run origin limit ⟨cpu, ([], [])⟩ =
      (cpu.course origin limit).result
        ((cpu.course origin limit).events, cpu.records origin limit) := by
  have hlogger : logger.withoutTrace = logger := rfl
  unfold scribe
  rw [run_withTrace, hlogger, run_logger, notices_append, List.nil_append]
  unfold Course.result
  cases (cpu.course origin limit).outcome with
  | ok outcome => rfl
  | error fault => rfl

/-- A log may be given the records later, from a list of them. -/
theorem Reflects.noted (engine : Engine τ) (logged : τ) :
    logger.Reflects engine.withoutTrace fun records => engine.noted records logged :=
  ⟨fun _ _ => rfl, fun _ _ => List.foldl_append⟩

/-- A run gives the events of its course to the hook, and its records to the log. -/
theorem run_withTrace_eq (engine : Engine τ) (hook : TraceEvent → σ → σ) (cpu : Processor)
    (origin : UInt16) (limit : Limit) (seen : σ) (logged : τ) :
    (engine.withTrace hook).run origin limit ⟨cpu, (seen, logged)⟩ =
      (cpu.course origin limit).result (notices hook seen (cpu.course origin limit).events,
        engine.noted (cpu.records origin limit) logged) := by
  have hlog := (Reflects.noted engine logged).run origin limit ⟨cpu, []⟩
  have hstart : Session.map (fun records => engine.noted records logged) ⟨cpu, []⟩ =
      ⟨cpu, logged⟩ := rfl
  rw [hstart, run_logger] at hlog
  rw [run_withTrace, ← hlog]
  unfold Course.result
  cases (cpu.course origin limit).outcome with
  | ok outcome => rfl
  | error fault => rfl

end Engine

/-! ## What the records tell -/

/-- The record tells of the instruction at the program counter of the one state, and of the
accumulator and the flags of the other. -/
def Record.TellsOf (record : Record) (before after : Processor) : Prop :=
  ∃ row, decode? (before.memory.get before.registers.pc) = some row ∧
    record = .executed before.registers.pc row.mnemonic (before.operand row)
      after.registers.a after.flags

/-- The records tell, one for each, of the instructions that are executed from a state on: where
each of them stands, and the accumulator and the flags that it leaves. -/
def Processor.ToldBy (cpu : Processor) (told : List Record) : Prop :=
  ∀ (index : Nat) (record : Record), told[index]? = some record →
    record.TellsOf (cpu.after index) (cpu.after (index + 1))

/-- The records of a run, by how it ends. A halted processor is left alone and makes none. The
others begin with the start of the run, and go on with the instructions. The last of these is the
BRK if the run halted, and its address is in the closing record, with the tick count at the end.
Otherwise the closing record says that the limit is reached, and in how many steps and ticks, or
which opcode has no row, and at which address. There is none if the tick count is exhausted, by the
instruction that was told of last. -/
inductive Course.Logged (cpu : Processor) (origin : UInt16) (limit : Limit) :
    Course → List Record → Prop where
  | idle (halted : cpu.isHalted = true) :
      Logged cpu origin limit ⟨.ok ⟨.halted, 0, cpu.cycles⟩, cpu, []⟩ []
  | halted {last : Processor} {events : List TraceEvent} {told : List Record} {pc : UInt16}
      {operand : Operand} {a : UInt8} {flags : Flags} (running : cpu.isHalted = false)
      (told_by : (cpu.jump origin).ToldBy told) (one_each : told.length = events.length)
      (brk : told.getLast? = some (.executed pc .brk operand a flags)) :
      Logged cpu origin limit ⟨.ok ⟨.halted, events.length, last.cycles⟩, last, events⟩
        (.runStarted origin limit :: (told ++ [.halted pc last.cycles]))
  | limitReached {last : Processor} {events : List TraceEvent} {told : List Record}
      (running : cpu.isHalted = false) (told_by : (cpu.jump origin).ToldBy told)
      (one_each : told.length = events.length) :
      Logged cpu origin limit ⟨.ok ⟨.limitReached, events.length, last.cycles⟩, last, events⟩
        (.runStarted origin limit ::
          (told ++ [.limitReached ⟨.limitReached, events.length, last.cycles⟩]))
  | stuck {opcode : UInt8} {pc : UInt16} {last : Processor} {events : List TraceEvent}
      {told : List Record} (running : cpu.isHalted = false)
      (told_by : (cpu.jump origin).ToldBy told) (one_each : told.length = events.length) :
      Logged cpu origin limit ⟨.error (.unimplementedOpcode opcode pc), last, events⟩
        (.runStarted origin limit :: (told ++ [.unimplementedOpcode opcode pc]))
  | exhausted {last : Processor} {events : List TraceEvent} {told : List Record}
      (running : cpu.isHalted = false) (told_by : (cpu.jump origin).ToldBy told)
      (one_each : told.length = events.length) :
      Logged cpu origin limit ⟨.error .tickOverflow, last, events⟩
        (.runStarted origin limit :: told)

/-- The levels of the records that close the log of a run. -/
def closingLevels : Except Fault RunOutcome → List Level
  | .ok _ => [.debug]
  | .error (.unimplementedOpcode ..) => [.warn]
  | .error _ => []

/-- The levels of the records of a run from this state that has this course. -/
def Course.levels (course : Course) (cpu : Processor) : List Level :=
  if cpu.isHalted then []
  else .debug :: (List.replicate course.events.length .trace ++ closingLevels course.outcome)

namespace Processor

/-- The record of an instruction. -/
def account (cpu : Processor) (i : Instruction) : Record :=
  .executed cpu.registers.pc i.mnemonic (cpu.operand i) (cpu.next i).registers.a (cpu.next i).flags

variable {cpu : Processor} {record : Record} {told : List Record}

theorem account_tellsOf {i : Instruction} {after : Processor}
    (decoded : decode? (cpu.memory.get cpu.registers.pc) = some i)
    (ha : after.registers.a = (cpu.next i).registers.a) (hflags : after.flags = (cpu.next i).flags) :
    (cpu.account i).TellsOf cpu after := by
  refine ⟨i, decoded, ?_⟩
  rw [ha, hflags]
  rfl

theorem toldBy_nil (cpu : Processor) : cpu.ToldBy [] :=
  fun _ _ hindex => nomatch hindex

theorem ToldBy.cons (h : record.TellsOf cpu cpu.stepped) (hrest : cpu.stepped.ToldBy told) :
    cpu.ToldBy (record :: told) := by
  intro index record' hindex
  cases index with
  | zero =>
    cases hindex
    exact h
  | succ index => exact hrest index record' hindex

theorem ToldBy.concat (h : cpu.ToldBy told)
    (hlast : record.TellsOf (cpu.after told.length) (cpu.after (told.length + 1))) :
    cpu.ToldBy (told ++ [record]) := by
  intro index record' hindex
  rw [List.getElem?_append] at hindex
  split at hindex
  · exact h index record' hindex
  · next hlength =>
    rw [List.getElem?_singleton] at hindex
    split at hindex
    · next hzero =>
      have heq : index = told.length := by omega
      cases hindex
      rw [heq]
      exact hlast
    · cases hindex

theorem ToldBy.level_eq (h : cpu.ToldBy told) : told.map Record.level =
    List.replicate told.length .trace := by
  rw [List.eq_replicate_iff, List.length_map]
  refine ⟨rfl, ?_⟩
  intro level hlevel
  obtain ⟨record, hrecord, rfl⟩ := List.mem_map.1 hlevel
  obtain ⟨index, hindex⟩ := List.getElem?_of_mem hrecord
  obtain ⟨row, -, rfl⟩ := h index record hindex
  rfl

end Processor

theorem Course.Logged.levels_eq {cpu : Processor} {origin : UInt16} {limit : Limit}
    {course : Course} {records : List Record} (h : course.Logged cpu origin limit records) :
    records.map Record.level = course.levels cpu := by
  unfold levels
  cases h with
  | idle halted => rw [if_pos halted]; rfl
  | halted running told_by one_each | limitReached running told_by one_each
  | stuck running told_by one_each | exhausted running told_by one_each =>
    have hlevels := told_by.level_eq
    rw [one_each] at hlevels
    rw [running, if_neg Bool.false_ne_true]
    simp only [List.map_cons, List.map_append, hlevels]
    simp [closingLevels, Record.level]

/-- As many records are of level trace as there are instructions. -/
theorem Course.Logged.count_trace {cpu : Processor} {origin : UInt16} {limit : Limit}
    {course : Course} {records : List Record} (h : course.Logged cpu origin limit records) :
    (records.map Record.level).count .trace = course.events.length := by
  rw [h.levels_eq]
  unfold levels
  cases h with
  | idle halted => rw [if_pos halted]; rfl
  | halted running | limitReached running | stuck running | exhausted running =>
    rw [running, if_neg Bool.false_ne_true]
    simp [closingLevels]

theorem Course.Logged.steps_eq {cpu : Processor} {origin : UInt16} {limit : Limit}
    {course : Course} {records : List Record} (h : course.Logged cpu origin limit records) :
    ∀ outcome, course.outcome = .ok outcome → outcome.steps = course.events.length := by
  intro outcome houtcome
  cases h with
  | idle | halted | limitReached =>
    cases houtcome
    rfl
  | stuck | exhausted => cases houtcome

/-! ## What is listed of a run -/

namespace Engine

variable {s s' t : Session (List TraceEvent × List Record)} {events : List TraceEvent}

theorem stepped_eq_left (engine : Engine σ) (s : Session σ) :
    s.cpu.stepped = (Watched.left (engine.step s)).cpu := by
  have hblind := (Reflects.blind engine).step s
  unfold Processor.stepped
  rw [← show _ = ({} : Engine Unit).step ⟨s.cpu, ()⟩ from hblind]
  cases engine.step s with
  | ok report s' => rfl
  | error fault s' => rfl

/-- If instructions have halted the processor, the last of them is a BRK, and the halt is in the log
as well. -/
inductive HaltNoted (told : List Record) (last : Processor) : List Record → Prop where
  | running (running : last.isHalted = false) : HaltNoted told last []
  | halted {pc : UInt16} {operand : Operand} {a : UInt8} {flags : Flags}
      (halted : last.isHalted = true)
      (brk : told.getLast? = some (.executed pc .brk operand a flags)) :
      HaltNoted told last [.halted pc last.cycles]

theorem HaltNoted.eq_nil {told closing : List Record} {last : Processor}
    (h : HaltNoted told last closing) (running : last.isHalted = false) : closing = [] := by
  cases h with
  | running => rfl
  | halted halted =>
    rw [running] at halted
    cases halted

/-- What is listed while some instructions are executed: the events, a record for each of them, and
a record of the halt if there is one. -/
structure Listed (s : Session (List TraceEvent × List Record)) (events : List TraceEvent)
    (told closing : List Record) (t : Session (List TraceEvent × List Record)) : Prop where
  events_eq : t.seen.1 = s.seen.1 ++ events
  records_eq : t.seen.2 = s.seen.2 ++ (told ++ closing)
  one_each : told.length = events.length
  told_by : s.cpu.ToldBy told
  closes : HaltNoted told t.cpu closing

theorem note_scribe (cpu : Processor) (i : Instruction)
    (seen : List TraceEvent × List Record) :
    scribe.note cpu i seen = (seen.1 ++ [.capture cpu i], seen.2 ++ [cpu.account i]) := rfl

theorem exists_listed (h : scribe.Executes s events t) (running : s.cpu.isHalted = false) :
    ∃ told closing, Listed s events told closing t := by
  induction h with
  | done s =>
    exact ⟨[], [], (List.append_nil _).symm, (List.append_nil _).symm, rfl, s.cpu.toldBy_nil,
      .running running⟩
  | @step s s' t i report events running' decoded first rest ih =>
    have hstepped := stepped_eq first
    obtain ⟨i', decoded', -, rfl, -⟩ := executed_of_step_eq_ok running first
    rw [decoded] at decoded'
    cases decoded'
    have htells : (s.cpu.account i).TellsOf s.cpu s.cpu.stepped :=
      Processor.account_tellsOf decoded (by rw [hstepped]) (by rw [hstepped])
    rw [observe_eq, note_scribe] at ih rest
    by_cases hbrk : i.mnemonic = .brk
    · -- the processor is halted, so nothing follows
      have hhalted := s.cpu.isHalted_next_of_brk hbrk
      have hlast : [s.cpu.account i].getLast? = some (.executed s.cpu.registers.pc .brk
          (s.cpu.operand i) (s.cpu.next i).registers.a (s.cpu.next i).flags) := by
        unfold Processor.account
        rw [hbrk]
        rfl
      obtain ⟨rfl, rfl⟩ := rest.of_isHalted hhalted
      rw [if_pos hbrk]
      exact ⟨[s.cpu.account i], _, rfl, List.append_assoc .., rfl,
        .cons htells (Processor.toldBy_nil _), .halted hhalted hlast⟩
    · -- the record comes before those of the instructions that follow
      obtain ⟨told, closing, listed⟩ := ih (Processor.isHalted_next_of_ne_brk running hbrk)
      rw [if_neg hbrk] at listed
      refine ⟨s.cpu.account i :: told, closing, ?_, ?_, ?_, .cons htells ?_, ?_⟩
      · rw [listed.events_eq, List.append_assoc, List.singleton_append]
      · rw [listed.records_eq, List.append_assoc, List.singleton_append, List.cons_append]
      · rw [List.length_cons, List.length_cons, listed.one_each]
      · rw [hstepped]
        exact listed.told_by
      · cases listed.closes with
        | running hrunning => exact .running hrunning
        | @halted pc operand a flags hhalted hlast =>
          have hlast' : (s.cpu.account i :: told).getLast? =
              some (.executed pc .brk operand a flags) := by
            rw [List.getLast?_cons, hlast]
            rfl
          exact .halted hhalted hlast'

/-- An instruction for which the tick count has no room is listed like the others. -/
theorem listed_of_overflow (h : scribe.step s = .error .tickOverflow s') :
    ∃ event record, s'.seen = (s.seen.1 ++ [event], s.seen.2 ++ [record]) ∧
      record.TellsOf s.cpu s.cpu.stepped := by
  have hleft : s.cpu.stepped = s'.cpu := by
    rw [stepped_eq_left scribe, h]
    rfl
  obtain ⟨i, decoded, rfl⟩ := performed_of_overflow h
  exact ⟨_, _, note_scribe s.cpu i s.seen, Processor.account_tellsOf decoded (by rw [hleft]; rfl)
    (by rw [hleft]; rfl)⟩

/-- The course and the records of a run, from what is listed. -/
theorem listed_of_run_eq {cpu : Processor} {origin : UInt16} {limit : Limit}
    {result : EStateM.Result Fault (Session (List TraceEvent × List Record)) RunOutcome}
    (h : scribe.run origin limit ⟨cpu, ([], [])⟩ = result) :
    cpu.course origin limit = .ofResult (Watched.mapResult Prod.fst result) ∧
      cpu.records origin limit = (Watched.left result).seen.2 := by
  rw [← h, run_scribe]
  unfold Course.result
  generalize cpu.course origin limit = course
  rcases course with ⟨fault | outcome, last, events⟩
  · exact ⟨rfl, rfl⟩
  · exact ⟨rfl, rfl⟩

theorem course_logged (cpu : Processor) (origin : UInt16) (limit : Limit) :
    (cpu.course origin limit).Logged cpu origin limit (cpu.records origin limit) := by
  cases running : cpu.isHalted with
  | true =>
    obtain ⟨hcourse, hrecords⟩ :=
      listed_of_run_eq (scribe.run_of_isHalted origin limit ⟨cpu, ([], [])⟩ running)
    rw [hcourse, hrecords]
    exact .idle running
  | false =>
    obtain ⟨events, ⟨last, seen⟩, account⟩ :=
      scribe.exists_account origin limit ⟨cpu, ([], [])⟩ running
    obtain ⟨told, closing, listed⟩ := exists_listed account.executes running
    have hseen : seen = (events, .runStarted origin limit :: (told ++ closing)) :=
      Prod.ext listed.events_eq listed.records_eq
    subst hseen
    have hcloses : HaltNoted told last closing := listed.closes
    have hends := account.ends
    generalize hresult : scribe.run origin limit ⟨cpu, ([], [])⟩ = result at hends
    cases hends with
    | halted halted =>
      obtain ⟨hcourse, hrecords⟩ := listed_of_run_eq hresult
      rw [hcourse, hrecords]
      cases hcloses with
      | running running' =>
        have halted : last.isHalted = true := halted
        rw [running'] at halted
        cases halted
      | halted halted brk => exact .halted running listed.told_by listed.one_each brk
    | limitReached running' reached =>
      have hclosing := hcloses.eq_nil running'
      rw [hclosing, List.append_nil] at hresult
      obtain ⟨hcourse, hrecords⟩ := listed_of_run_eq hresult
      rw [hcourse, hrecords]
      exact .limitReached running listed.told_by listed.one_each
    | @failed fault s' unreached failure =>
      obtain ⟨hcourse, hrecords⟩ := listed_of_run_eq hresult
      rw [hcourse, hrecords]
      have running' := (fault_of_step_eq_error failure).1
      have hclosing := hcloses.eq_nil running'
      rw [hclosing, List.append_nil] at failure
      rcases (fault_of_step_eq_error failure).2 with ⟨undecoded, rfl, rfl⟩ | ⟨rfl, -⟩
      · exact .stuck running listed.told_by listed.one_each
      · -- the instruction that exhausts the tick count is the last of those that are told of
        obtain ⟨event, record, hseen', htells⟩ := listed_of_overflow failure
        have hlast : last = (cpu.jump origin).after told.length := by
          rw [listed.one_each]
          exact account.executes.after.1
        have htells' : record.TellsOf ((cpu.jump origin).after told.length)
            ((cpu.jump origin).after (told.length + 1)) := by
          rw [Processor.after_add, ← hlast]
          exact htells
        have hone : (told ++ [record]).length = (events ++ [event]).length := by
          rw [List.length_append, List.length_append, listed.one_each]
          rfl
        obtain ⟨last', seen'⟩ := s'
        cases hseen'
        exact .exhausted running (listed.told_by.concat htells') hone

/-- The records of a run match its outcome. Whatever watches, its log is given these records, one
after the other, and its hook the events of the course. The records begin with the start of the
run, go on with one for every instruction, and close with how the run ended; a halted processor
makes none. Their levels follow from the course, and as many are of level trace as there are events,
and as there are steps in the outcome. -/
theorem run_logged (engine : Engine τ) (hook : TraceEvent → σ → σ) (cpu : Processor)
    (origin : UInt16) (limit : Limit) (seen : σ) (logged : τ) :
    let course := cpu.course origin limit
    let records := cpu.records origin limit
    (engine.withTrace hook).run origin limit ⟨cpu, (seen, logged)⟩ =
        course.result (notices hook seen course.events, engine.noted records logged) ∧
      course.Logged cpu origin limit records ∧
      records.map Record.level = course.levels cpu ∧
      (records.map Record.level).count .trace = course.events.length ∧
      ∀ outcome, course.outcome = .ok outcome → outcome.steps = course.events.length := by
  have hlogged := course_logged cpu origin limit
  exact ⟨run_withTrace_eq engine hook cpu origin limit seen logged, hlogged, hlogged.levels_eq,
    hlogged.count_trace, hlogged.steps_eq⟩

/-- The log of a BRK at the last address. -/
theorem run_logged_of_break :
    ((Processor.powerUp 0xFFFF).course 0xFFFF (.steps 3)).outcome = .ok ⟨.halted, 1, ⟨7⟩⟩ ∧
      ((Processor.powerUp 0xFFFF).records 0xFFFF (.steps 3)).map Record.level =
        [.debug, .trace, .debug] ∧
      1 = ((Processor.powerUp 0xFFFF).course 0xFFFF (.steps 3)).events.length := by
  have hdecode : decode? ((Processor.powerUp 0xFFFF).memory.get 0xFFFF) =
      some ⟨0x00, .brk, .implied, 7⟩ := by
    rw [show (Processor.powerUp 0xFFFF).memory.get 0xFFFF = 0 from Memory.get_zeroed _]
    rfl
  have hstep := recorder.step_of_decode?_eq_some ⟨.powerUp 0xFFFF, []⟩ rfl hdecode (by decide)
  have houtcome : ((Processor.powerUp 0xFFFF).course 0xFFFF (.steps 3)).outcome =
      .ok ⟨.halted, 1, ⟨7⟩⟩ := by
    have hloop : recorder.run 0xFFFF (.steps 3) ⟨.powerUp 0xFFFF, []⟩ =
        recorder.loop (.steps 3) 0 ⟨.powerUp 0xFFFF, []⟩ :=
      recorder.run_of_running 0xFFFF (.steps 3) _ rfl
    unfold Processor.course
    rw [hloop, loop_eq, hstep]
    rfl
  obtain ⟨-, -, hlevels, -, hsteps⟩ := run_logged (τ := Unit) (σ := Unit) {} (fun _ _ => ())
    (.powerUp 0xFFFF) 0xFFFF (.steps 3) () ()
  have hlength := hsteps _ houtcome
  refine ⟨houtcome, ?_, hlength⟩
  rw [hlevels]
  unfold Course.levels
  rw [houtcome, ← hlength]
  rfl

end Engine

end Cpu6502
