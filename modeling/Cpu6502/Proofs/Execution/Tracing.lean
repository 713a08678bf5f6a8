import Cpu6502.Proofs.Execution.Failure
import Cpu6502.Proofs.Execution.Manual
import Cpu6502.Proofs.Execution.Splitting

/-! # Traces

A hook that is installed in an engine is given an event for every instruction that is executed, and
changes nothing else: the run ends as it would without the hook, in the same state, and the log has
the same records.

The events are told apart from the hook by the states they describe. `Processor.after` counts steps
without anyone watching, and `Chronicle` says that there is one event for each of the states passed
through, which it describes as the instruction finds it.
-/

namespace Cpu6502

open Instruction

variable {σ τ : Type}

/-! ## Hooks -/

namespace Engine

/-- The engine with a hook installed, which has an observation of its own. -/
def withTrace (engine : Engine τ) (hook : TraceEvent → σ → σ) : Engine (σ × τ) where
  hook := some fun event seen => (hook event seen.1, seen.2)
  log := fun record seen => (seen.1, engine.log record seen.2)

/-- The engine without its hook. -/
def withoutTrace (engine : Engine τ) : Engine τ where
  hook := none
  log := engine.log

/-- The engine that has a hook and no log. -/
def onlyTrace (hook : TraceEvent → σ → σ) : Engine σ where
  hook := some hook

/-- What a hook makes of several events. -/
def notices (hook : TraceEvent → σ → σ) (seen : σ) (events : List TraceEvent) : σ :=
  events.foldl (fun seen event => hook event seen) seen

/-- The log does not see what the hook makes of the events. -/
theorem Reflects.withoutTrace (engine : Engine τ) (hook : TraceEvent → σ → σ) :
    (engine.withTrace hook).Reflects engine.withoutTrace Prod.snd :=
  ⟨fun _ _ => rfl, fun _ _ => rfl⟩

/-- The hook does not see the log. -/
theorem Reflects.onlyTrace (engine : Engine τ) (hook : TraceEvent → σ → σ) :
    (engine.withTrace hook).Reflects (Engine.onlyTrace hook) Prod.fst :=
  ⟨fun _ _ => rfl, fun _ _ => rfl⟩

/-- A hook may be given the events later, from a list of them. -/
theorem Reflects.notices (hook : TraceEvent → σ → σ) (seen : σ) :
    recorder.Reflects (Engine.onlyTrace hook) (Engine.notices hook seen) := by
  refine ⟨?_, fun _ _ => rfl⟩
  intro event events
  show (events ++ [event]).foldl _ seen = hook event (events.foldl _ seen)
  rw [List.foldl_append]
  rfl

/-- A run with a hook is the run without it, and the hook has been given the events of the run. -/
theorem run_withTrace (engine : Engine τ) (hook : TraceEvent → σ → σ) (cpu : Processor)
    (origin : UInt16) (limit : Limit) (seen : σ) (logged : τ) :
    (engine.withTrace hook).run origin limit ⟨cpu, (seen, logged)⟩ =
      Watched.mapResult (fun logged => (notices hook seen (cpu.course origin limit).events, logged))
        (engine.withoutTrace.run origin limit ⟨cpu, logged⟩) := by
  -- the two halves of the observation, each by itself
  have hlog := (Reflects.withoutTrace engine hook).run origin limit ⟨cpu, (seen, logged)⟩
  have hhook := (Reflects.onlyTrace engine hook).run origin limit ⟨cpu, (seen, logged)⟩
  have hlist := (Reflects.notices hook seen).run origin limit ⟨cpu, []⟩
  have hevents := hhook.trans hlist.symm
  unfold Processor.course
  rw [← show _ = engine.withoutTrace.run origin limit ⟨cpu, logged⟩ from hlog]
  generalize (engine.withTrace hook).run origin limit ⟨cpu, (seen, logged)⟩ = result at hevents
  generalize recorder.run origin limit ⟨cpu, []⟩ = result' at hevents
  rcases result with ⟨outcome, cpu', seen', logged'⟩ | ⟨fault, cpu', seen', logged'⟩
  · rcases result' with ⟨outcome', s⟩ | ⟨fault', s⟩
    · cases hevents
      rfl
    · cases hevents
  · rcases result' with ⟨outcome', s⟩ | ⟨fault', s⟩
    · cases hevents
    · cases hevents
      rfl

end Engine

/-! ## States passed through -/

namespace Processor

/-- The state that a step leaves which nobody watches. -/
def stepped (cpu : Processor) : Processor :=
  match ({} : Engine Unit).step ⟨cpu, ()⟩ with
  | .ok _ s => s.cpu
  | .error _ s => s.cpu

/-- The state after a number of steps. -/
def after (cpu : Processor) : Nat → Processor
  | 0 => cpu
  | count + 1 => cpu.stepped.after count

theorem after_add (cpu : Processor) (count count' : Nat) :
    cpu.after (count + count') = (cpu.after count).after count' := by
  induction count generalizing cpu with
  | zero => rw [Nat.zero_add, after]
  | succ count ih => rw [Nat.succ_add, after, after, ih]

/-- The ticks that the manual counts for the instruction at the program counter. -/
def ticksDue (cpu : Processor) : Nat :=
  ((decode? (cpu.memory.get cpu.registers.pc)).map (Manual.ticks cpu)).getD 0

end Processor

/-- The event shows the state of a running processor that is about to execute an instruction, and
which instruction that is. -/
structure TraceEvent.Describes (event : TraceEvent) (cpu : Processor) : Prop where
  running : cpu.isHalted = false
  pc : event.pc = cpu.registers.pc
  opcode : event.opcode = cpu.memory.get cpu.registers.pc
  mnemonic : ∃ row ∈ table, row.opcode = event.opcode ∧ row.mnemonic = event.mnemonic
  registers : event.registers = cpu.registers
  flags : event.flags = cpu.flags
  cycles : event.cycles = cpu.cycles

/-- The events tell, one for each, of the instructions that are executed from the state `cpu` on
until the state `last`. The clock runs from event to event and from the last event to the end by
the ticks of the instruction. -/
structure Chronicle (cpu : Processor) (events : List TraceEvent) (last : Processor) : Prop where
  last_eq : last = cpu.after events.length
  describes : ∀ (index : Nat) (event : TraceEvent), events[index]? = some event →
    event.Describes (cpu.after index)
  consecutive : ∀ (index : Nat) (event later : TraceEvent), events[index]? = some event →
    events[index + 1]? = some later →
    later.cycles.count.toNat = event.cycles.count.toNat + (cpu.after index).ticksDue
  final : ∀ event, events.getLast? = some event →
    last.cycles.count.toNat =
      event.cycles.count.toNat + (cpu.after (events.length - 1)).ticksDue

/-- The events of a course tell what happened. A halted processor is left alone and has no events.
Otherwise the events are those of the instructions up to the end of the run, or up to a byte that no
row decodes. If the tick count is exhausted, the last event is that of the instruction for which it
had no room. -/
inductive Course.Faithful (cpu : Processor) (origin : UInt16) : Course → Prop where
  | idle (halted : cpu.isHalted = true) :
      Faithful cpu origin ⟨.ok ⟨.halted, 0, cpu.cycles⟩, cpu, []⟩
  | ended {outcome : RunOutcome} {last : Processor} {events : List TraceEvent}
      (running : cpu.isHalted = false) (chronicle : Chronicle (cpu.jump origin) events last)
      (steps : outcome.steps = events.length) (cycles : outcome.cycles = last.cycles) :
      Faithful cpu origin ⟨.ok outcome, last, events⟩
  | stuck {last : Processor} {events : List TraceEvent} (running : cpu.isHalted = false)
      (chronicle : Chronicle (cpu.jump origin) events last) (stuck : last.Stuck) :
      Faithful cpu origin ⟨.error last.unimplemented, last, events⟩
  | exhausted {before last : Processor} {events : List TraceEvent} {event : TraceEvent}
      (running : cpu.isHalted = false) (chronicle : Chronicle (cpu.jump origin) events before)
      (describes : event.Describes before) (full : UInt64.size ≤ before.cycles.count.toNat + 7) :
      Faithful cpu origin ⟨.error .tickOverflow, last, events ++ [event]⟩

namespace Engine

variable {engine : Engine σ} {s s' t : Session σ} {events : List TraceEvent}

/-- Whoever watches, a step leaves the same state. -/
theorem stepped_eq {report : Step} (h : engine.step s = .ok report s') :
    s.cpu.stepped = s'.cpu := by
  have hblind := (Reflects.blind engine).step s
  rw [h] at hblind
  unfold Processor.stepped
  rw [← show _ = ({} : Engine Unit).step ⟨s.cpu, ()⟩ from hblind]
  rfl

theorem describes_capture {i : Instruction} (running : s.cpu.isHalted = false)
    (decoded : decode? (s.cpu.memory.get s.cpu.registers.pc) = some i) :
    (TraceEvent.capture s.cpu i).Describes s.cpu := by
  rcases decode?_eq_some decoded with ⟨hi, hopcode⟩
  exact ⟨running, rfl, hopcode, ⟨i, hi, rfl, rfl⟩, rfl, rfl, rfl⟩

/-- Each of the instructions is executed in the state that those before it leave, and takes the
ticks that the manual counts. -/
theorem Executes.after (h : engine.Executes s events t) :
    t.cpu = s.cpu.after events.length ∧
      ∀ index event, events[index]? = some event →
        event.Describes (s.cpu.after index) ∧
          (s.cpu.after (index + 1)).cycles.count.toNat =
            (s.cpu.after index).cycles.count.toNat + (s.cpu.after index).ticksDue := by
  induction h with
  | done s => exact ⟨rfl, fun index event hindex => by cases hindex⟩
  | @step s s' t i report events running decoded first rest ih =>
    rcases ih with ⟨hlast, hevents⟩
    have hstepped := stepped_eq first
    rw [← hstepped] at hlast hevents
    refine ⟨hlast, ?_⟩
    intro index event hindex
    cases index with
    | succ index => exact hevents index event hindex
    | zero =>
      cases hindex
      rcases executed_of_step_eq_ok running first with ⟨i', decoded', -, -, hticks⟩
      rw [decoded] at decoded'
      cases decoded'
      refine ⟨describes_capture running decoded, ?_⟩
      show s.cpu.stepped.cycles.count.toNat = s.cpu.cycles.count.toNat + s.cpu.ticksDue
      unfold Processor.ticksDue
      rw [hstepped, hticks, decoded, Processor.toNat_cost (decode?_eq_some decoded).1]
      rfl

theorem Executes.chronicle (h : engine.Executes s events t) : Chronicle s.cpu events t.cpu := by
  rcases h.after with ⟨hlast, hevents⟩
  refine ⟨hlast, fun index event hindex => (hevents index event hindex).1, ?_, ?_⟩
  · intro index event later hevent hlater
    rcases hevents index event hevent with ⟨hdescribes, hclock⟩
    rw [(hevents (index + 1) later hlater).1.cycles, hdescribes.cycles, hclock]
  · intro event hevent
    rw [List.getLast?_eq_getElem?] at hevent
    rcases hevents _ event hevent with ⟨hdescribes, hclock⟩
    have hlength : events.length - 1 + 1 = events.length := by
      have := (List.getElem?_eq_some_iff.1 hevent).1
      omega
    rw [hlength, ← hlast] at hclock
    rw [hclock, hdescribes.cycles]

/-! ## What the hook is given -/

theorem observe_recorder (cpu : Processor) (i : Instruction) (events : List TraceEvent) :
    recorder.observe cpu i events = events ++ [.capture cpu i] := by
  rw [observe_eq]
  split
  · rfl
  · rfl

/-- The list of events grows by one for every instruction. -/
theorem seen_of_executes {s t : Session (List TraceEvent)} (h : recorder.Executes s events t) :
    t.seen = s.seen ++ events := by
  induction h with
  | done s => exact (List.append_nil _).symm
  | @step s s' t i report events running decoded first rest ih =>
    rcases executed_of_step_eq_ok running first with ⟨i', decoded', -, rfl, -⟩
    rw [decoded] at decoded'
    cases decoded'
    rw [ih, observe_recorder, List.append_assoc, List.singleton_append]

/-- An instruction for which the tick count has no room has been announced and performed all the
same. -/
theorem performed_of_overflow (h : engine.step s = .error .tickOverflow s') :
    ∃ i, decode? (s.cpu.memory.get s.cpu.registers.pc) = some i ∧
      s' = ⟨(s.cpu.effect i).jump (s.cpu.successor i), engine.note s.cpu i s.seen⟩ := by
  have running := (fault_of_step_eq_error h).1
  cases decoded : decode? (s.cpu.memory.get s.cpu.registers.pc) with
  | none =>
    rw [engine.step_of_decode?_eq_none s running decoded] at h
    cases h
  | some i =>
    rw [engine.step_eq_settle s running decoded, settle_eq] at h
    split at h
    · cases h
    · cases h
      exact ⟨i, rfl, rfl⟩

theorem seen_of_overflow {s s' : Session (List TraceEvent)}
    (h : recorder.step s = .error .tickOverflow s') :
    ∃ event, event.Describes s.cpu ∧ s'.seen = s.seen ++ [event] := by
  have running := (fault_of_step_eq_error h).1
  obtain ⟨i, decoded, rfl⟩ := performed_of_overflow h
  exact ⟨.capture s.cpu i, describes_capture running decoded, rfl⟩

theorem course_faithful (cpu : Processor) (origin : UInt16) (limit : Limit) :
    (cpu.course origin limit).Faithful cpu origin := by
  unfold Processor.course
  cases running : cpu.isHalted with
  | true =>
    rw [recorder.run_of_isHalted origin limit ⟨cpu, []⟩ running]
    exact .idle running
  | false =>
    rcases recorder.exists_account origin limit ⟨cpu, []⟩ running with ⟨events, t, account⟩
    have hchronicle := account.executes.chronicle
    have hseen : t.seen = events := seen_of_executes account.executes
    have hends := account.ends
    generalize recorder.run origin limit ⟨cpu, []⟩ = result at hends
    rw [← hseen] at hchronicle hends
    cases hends with
    | halted halted => exact .ended running hchronicle rfl rfl
    | limitReached running' reached => exact .ended running hchronicle rfl rfl
    | @failed fault s' unreached failure =>
      rcases fault_of_step_eq_error failure with
        ⟨running', ⟨undecoded, rfl, rfl⟩ | ⟨rfl, hfull⟩⟩
      · exact .stuck running hchronicle ⟨running', undecoded⟩
      · rcases seen_of_overflow failure with ⟨event, hdescribes, hevent⟩
        unfold Course.ofResult
        dsimp only
        rw [hevent]
        exact .exhausted running hchronicle hdescribes hfull

/-- A trace is faithful and only observes. The course of a run has an event for each instruction, in
the order in which they are executed, which shows the state before it. These events are what any
hook is given, one after the other; and with the hook as without it the run has the result and the
processor of its course, and the same log. -/
theorem trace_faithful (engine : Engine τ) (hook : TraceEvent → σ → σ) (cpu : Processor)
    (origin : UInt16) (limit : Limit) (seen : σ) (logged : τ) :
    let course := cpu.course origin limit
    course.Faithful cpu origin ∧
      ∃ logged', engine.withoutTrace.run origin limit ⟨cpu, logged⟩ = course.result logged' ∧
        (engine.withTrace hook).run origin limit ⟨cpu, (seen, logged)⟩ =
          course.result (notices hook seen course.events, logged') := by
  refine ⟨course_faithful cpu origin limit, ?_⟩
  rcases engine.withoutTrace.exists_run_eq_result origin limit ⟨cpu, logged⟩ with ⟨logged', hrun⟩
  refine ⟨logged', hrun, ?_⟩
  rw [run_withTrace, hrun]
  unfold Course.result
  cases (cpu.course origin limit).outcome with
  | ok outcome => rfl
  | error fault => rfl

end Engine

end Cpu6502
