import Cpu6502.Proofs.Execution.Watching

/-! # Runs in parts

A run may be interrupted and taken up again where it stopped. `Processor.course` is all that a run
comes to: its outcome, the processor it leaves and the events of its instructions. The course of a
run is the course of its first part, followed by that of the second if the first came to its limit.
-/

namespace Cpu6502

open Instruction

/-! ## Courses -/

/-- The outcome of a run that some instructions came before. -/
def RunOutcome.after (steps : Nat) (outcome : RunOutcome) : RunOutcome :=
  { outcome with steps := steps + outcome.steps }

/-- What a run comes to. -/
structure Course where
  outcome : Except Fault RunOutcome
  /-- The processor at the end. -/
  cpu : Processor
  /-- The events that the hook was given. -/
  events : List TraceEvent

namespace Course

/-- The course that a list of the events given to the hook shows. -/
def ofResult : EStateM.Result Fault (Session (List TraceEvent)) RunOutcome → Course
  | .ok outcome s => ⟨.ok outcome, s.cpu, s.seen⟩
  | .error fault s => ⟨.error fault, s.cpu, s.seen⟩

/-- The result of a run with this course, after which `seen` has been seen. -/
def result {σ : Type} (course : Course) (seen : σ) :
    EStateM.Result Fault (Session σ) RunOutcome :=
  match course.outcome with
  | .ok outcome => .ok outcome ⟨course.cpu, seen⟩
  | .error fault => .error fault ⟨course.cpu, seen⟩

/-- A run and, if it comes to its limit, another run from where it stopped. -/
def andThen (course : Course) (next : Processor → Course) : Course :=
  match course.outcome with
  | .error _ => course
  | .ok outcome =>
    match outcome.ending with
    | .halted => course
    | .limitReached =>
      let rest := next course.cpu
      { outcome := rest.outcome.map (RunOutcome.after outcome.steps)
        cpu := rest.cpu
        events := course.events ++ rest.events }

variable {σ : Type}

theorem ofResult_map (f : RunOutcome → RunOutcome) (run : Watched (List TraceEvent) RunOutcome)
    (s : Session (List TraceEvent)) :
    ofResult ((f <$> run) s) =
      { ofResult (run s) with outcome := (ofResult (run s)).outcome.map f } := by
  show ofResult (EStateM.map f run s) = _
  unfold EStateM.map
  cases run s with
  | ok outcome s' => rfl
  | error fault s' => rfl

/-- A result that differs from another only in what has been seen has the same course. -/
theorem exists_eq_result {result : EStateM.Result Fault (Session σ) RunOutcome}
    {result' : EStateM.Result Fault (Session (List TraceEvent)) RunOutcome}
    (h : Watched.mapResult (fun _ => ()) result = Watched.mapResult (fun _ => ()) result') :
    ∃ seen, result = (ofResult result').result seen := by
  rcases result with ⟨outcome, cpu, seen⟩ | ⟨fault, cpu, seen⟩
  · rcases result' with ⟨outcome', cpu', seen'⟩ | ⟨fault', s'⟩
    · cases h
      exact ⟨seen, rfl⟩
    · cases h
  · rcases result' with ⟨outcome', s'⟩ | ⟨fault', cpu', seen'⟩
    · cases h
    · cases h
      exact ⟨seen, rfl⟩

end Course

/-- The engine that lists the events. -/
def Engine.recorder : Engine (List TraceEvent) where
  hook := some fun event events => events ++ [event]

/-- The course of a run. -/
def Processor.course (cpu : Processor) (origin : UInt16) (limit : Limit) : Course :=
  .ofResult (Engine.recorder.run origin limit ⟨cpu, []⟩)

namespace Engine

variable {σ : Type} {engine : Engine σ}

/-- Whoever watches a run, its course is the same. -/
theorem exists_run_eq_result (engine : Engine σ) (origin : UInt16) (limit : Limit)
    (s : Session σ) :
    ∃ seen, engine.run origin limit s = (s.cpu.course origin limit).result seen := by
  -- both engines are reflected by the one that sees nothing
  have hengine := (Reflects.blind engine).run origin limit s
  have hrecorder := (Reflects.blind recorder).run origin limit ⟨s.cpu, []⟩
  exact Course.exists_eq_result (hengine.trans hrecorder.symm)

/-! ## Taking up a run again -/

/-- Steps that came before are only counted, if the limit takes no account of them. -/
theorem loop_after (silent : ∀ record seen, engine.log record seen = seen) {limit limit' : Limit}
    {before : Nat}
    (h : ∀ steps ticks, limit'.isReached (before + steps) ticks = limit.isReached steps ticks)
    (steps : Nat) (s : Session σ) :
    engine.loop limit' (before + steps) s =
      (RunOutcome.after before <$> engine.loop limit steps) s := by
  show _ = EStateM.map (RunOutcome.after before) (engine.loop limit steps) s
  induction steps, s using engine.loop_induction limit with
  | turn steps s ih =>
    unfold EStateM.map at ih ⊢
    rw [loop_eq, loop_eq engine limit, h]
    cases hreached : limit.isReached steps s.cpu.cycles with
    | true =>
      rw [if_pos rfl, if_pos rfl, stop_apply, stop_apply, silent, silent]
      rfl
    | false =>
      cases hstep : engine.step s with
      | error fault s' => rfl
      | ok report s' =>
        cases report with
        | halted => rfl
        | executed cost => exact ih cost s' hreached hstep

/-- A list of events may be continued. -/
theorem Reflects.append (events : List TraceEvent) :
    recorder.Reflects recorder fun later => events ++ later :=
  ⟨fun event later => (List.append_assoc events later [event]).symm, fun _ _ => rfl⟩

end Engine

namespace Processor

open Engine

/-- A run that goes on has the course of a new run from where it stands, after the events so far. -/
theorem ofResult_loop (limit : Limit) (t : Session (List TraceEvent))
    (running : t.cpu.isHalted = false) :
    Course.ofResult (recorder.loop limit 0 t) =
      let course := t.cpu.course t.cpu.registers.pc limit
      { course with events := t.seen ++ course.events } := by
  have hrun := recorder.run_of_running t.cpu.registers.pc limit ⟨t.cpu, []⟩ running
  have hstart : recorder.start t.cpu.registers.pc limit ⟨t.cpu, []⟩ = ⟨t.cpu, []⟩ := rfl
  have hlist := (Reflects.append t.seen).loop limit 0 ⟨t.cpu, []⟩
  have ht : Session.map (fun later => t.seen ++ later) ⟨t.cpu, []⟩ = t := by
    simp only [Session.map, List.append_nil]
  rw [ht] at hlist
  unfold course
  rw [hrun, hstart, ← hlist]
  cases recorder.loop limit 0 ⟨t.cpu, []⟩ with
  | ok outcome u => rfl
  | error fault u => rfl

/-- The course of a run is that of a first part, which ends no later, followed by that of the
rest. -/
theorem course_eq_andThen (cpu : Processor) (origin : UInt16) {first rest whole : Limit}
    (hlater : ∀ steps ticks, first.isReached steps ticks = false →
      whole.isReached steps ticks = false)
    (hrest : ∀ {events t}, recorder.Account origin first ⟨cpu, []⟩ events t →
      first.isReached events.length t.cpu.cycles = true →
      ∀ steps ticks, whole.isReached (events.length + steps) ticks = rest.isReached steps ticks) :
    cpu.course origin whole =
      (cpu.course origin first).andThen fun cpu => cpu.course cpu.registers.pc rest := by
  have silent : ∀ record seen, recorder.log record seen = seen := fun _ _ => rfl
  unfold course
  cases running : cpu.isHalted with
  | true =>
    rw [recorder.run_of_isHalted _ _ _ running, recorder.run_of_isHalted _ _ _ running]
    rfl
  | false =>
    rcases recorder.exists_account origin first ⟨cpu, []⟩ running with ⟨events, t, account⟩
    have hadmits := account.admits.mono hlater
    have hexecutes : recorder.Executes (recorder.start origin whole ⟨cpu, []⟩) events t :=
      account.executes
    have hends := account.ends
    have hwhole := recorder.run_of_running origin whole ⟨cpu, []⟩ running
    rw [loop_of_executes hexecutes hadmits running, Nat.zero_add] at hwhole
    generalize recorder.run origin first ⟨cpu, []⟩ = result at hends
    rw [hwhole]
    cases hends with
    | halted halted =>
      rw [halted]
      rfl
    | failed unreached failure =>
      rw [(fault_of_step_eq_error failure).1, loop_eq, hlater _ _ unreached, failure]
      rfl
    | limitReached running' reached =>
      -- the second part begins where the first stopped
      have hafter := loop_after silent (hrest account reached) 0 t
      have hsecond := ofResult_loop rest t running'
      rw [running', if_neg Bool.false_ne_true, ← Nat.add_zero events.length, hafter,
        Course.ofResult_map, hsecond]
      rfl

/-- A run may be split. For every number of steps `m + n`, and for every number of cycles `N` of
which `M` come first, the course of the run is the course of the run to the first limit and, if that
was reached, of the run from there to the second: they end in the same way, in the same state, and
the steps of the two parts add up as their events follow one another. Whoever watches, the outcome
and the processor are those of the course. -/
theorem course_split {σ : Type} (engine : Engine σ) (s : Session σ) (origin : UInt16) :
    (∀ m n, s.cpu.course origin (.steps (m + n)) =
        (s.cpu.course origin (.steps m)).andThen fun cpu =>
          cpu.course cpu.registers.pc (.steps n)) ∧
      (∀ M N, M ≤ N → s.cpu.course origin (.cycles N) =
        (s.cpu.course origin (.cycles M)).andThen fun cpu =>
          cpu.course cpu.registers.pc (.cycles N)) ∧
      ∀ limit, ∃ seen, engine.run origin limit s = (s.cpu.course origin limit).result seen := by
  refine ⟨?_, ?_, fun limit => engine.exists_run_eq_result origin limit s⟩
  · intro m n
    apply course_eq_andThen
    · intro steps ticks hfirst
      simp only [Limit.isReached, decide_eq_false_iff_not] at hfirst ⊢
      omega
    · -- the first part was stopped after exactly `m` instructions
      intro events t account reached
      have hle := account.admits.length_le (Nat.zero_le m)
      simp only [Limit.isReached, decide_eq_true_eq] at reached
      intro steps ticks
      simp only [Limit.isReached, decide_eq_decide]
      omega
  · intro M N hle
    apply course_eq_andThen
    · intro steps ticks hfirst
      simp only [Limit.isReached, decide_eq_false_iff_not] at hfirst ⊢
      omega
    · intro events t account reached steps ticks
      rfl

/-- A NOP at the last address, before the BRK at the first. -/
def waitAtTheEnd : Processor :=
  { powerUp 0xFFFF with memory := Memory.zeroed.set 0xFFFF 0xEA }

theorem course_split_before_break :
    (2 ≤ 9 ∧ (waitAtTheEnd.course 0xFFFF (.cycles 2)).outcome = .ok ⟨.limitReached, 1, ⟨2⟩⟩ ∧
      (waitAtTheEnd.course 0xFFFF (.cycles 9)).outcome = .ok ⟨.halted, 2, ⟨9⟩⟩) ∧
      waitAtTheEnd.course 0xFFFF (.cycles 9) =
        (waitAtTheEnd.course 0xFFFF (.cycles 2)).andThen fun cpu =>
          cpu.course cpu.registers.pc (.cycles 9) := by
  have hfirst : decode? (waitAtTheEnd.memory.get 0xFFFF) = some ⟨0xEA, .nop, .implied, 2⟩ := by
    simp [waitAtTheEnd]
    rfl
  have hsecond : decode? (waitAtTheEnd.memory.get 0) = some ⟨0x00, .brk, .implied, 7⟩ := by
    simp [waitAtTheEnd, Memory.get_set]
    rfl
  -- the NOP takes two ticks, and the BRK after it seven
  have hwait := recorder.step_of_decode?_eq_some ⟨waitAtTheEnd, []⟩ rfl hfirst (by decide)
  have hroom : (waitAtTheEnd.next ⟨0xEA, .nop, .implied, 2⟩).cycles.count.toNat + 7 <
      UInt64.size := by decide
  have hbreak := fun seen => recorder.step_of_decode?_eq_some
    ⟨waitAtTheEnd.next ⟨0xEA, .nop, .implied, 2⟩, seen⟩ rfl hsecond hroom
  have hloop : ∀ limit, recorder.run 0xFFFF limit ⟨waitAtTheEnd, []⟩ =
      recorder.loop limit 0 ⟨waitAtTheEnd, []⟩ :=
    fun limit => recorder.run_of_running 0xFFFF limit _ rfl
  refine ⟨⟨by decide, ?_, ?_⟩, ?_⟩
  · unfold course
    rw [hloop, loop_eq, hwait]
    show (Course.ofResult (recorder.loop (.cycles 2) 1 _)).outcome = _
    rw [loop_eq]
    rfl
  · unfold course
    rw [hloop, loop_eq, hwait]
    show (Course.ofResult (recorder.loop (.cycles 9) 1 _)).outcome = _
    rw [loop_eq, hbreak]
    rfl
  · exact (course_split recorder ⟨waitAtTheEnd, []⟩ 0xFFFF).2.1 2 9 (by decide)

end Processor

end Cpu6502
