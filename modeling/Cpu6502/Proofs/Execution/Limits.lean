import Cpu6502.Proofs.Execution.Bounds
import Cpu6502.Proofs.Execution.Operation
import Cpu6502.Proofs.Execution.Tracing

/-! # Limits of ticks and limits of steps

A limit decides where a run stops, and nothing else about it. So a run under a limit of ticks that
stops after some number of steps is the run under a limit of that many steps
(`course_steps_of_ok`). If it fails instead, then so does every run that may go further, and a run
that may not stops at its limit, after the same instructions (`course_steps_of_stuck`).
-/

namespace Cpu6502

open Instruction

/-- A limit of steps admits as many instructions as it has left. -/
theorem Limit.admits_of_length_le {count steps : Nat} {events : List TraceEvent}
    (h : steps + events.length ≤ count) : (Limit.steps count).Admits steps events := by
  induction events generalizing steps with
  | nil => trivial
  | cons event events ih =>
    rw [List.length_cons] at h
    refine ⟨?_, ih (by omega)⟩
    unfold isReached
    rw [decide_eq_false_iff_not]
    omega

namespace Engine

variable {σ : Type} {engine : Engine σ} {s t : Session σ} {events : List TraceEvent}

/-- The first of some instructions that are executed leave a processor on which the others are
executed. -/
theorem Executes.take (h : engine.Executes s events t) (count : Nat) :
    ∃ u, engine.Executes s (events.take count) u ∧ engine.Executes u (events.drop count) t := by
  rw [← List.take_append_drop count events] at h
  exact executes_append_iff.1 h

/-- Only the last of some instructions that are executed can halt the processor. -/
theorem Executes.running_of_ne_nil (h : engine.Executes s events t) (hne : events ≠ []) :
    s.cpu.isHalted = false := by
  cases h with
  | done => exact absurd rfl hne
  | step running => exact running

/-- A run that is allowed some instructions ends with them, if they halt the processor, or else goes
on after them. -/
theorem run_of_executes {origin : UInt16} {limit : Limit} (running : s.cpu.isHalted = false)
    (h : engine.Executes (engine.start origin limit s) events t) (hadmits : limit.Admits 0 events) :
    engine.run origin limit s =
      if t.cpu.isHalted then .ok ⟨.halted, events.length, t.cpu.cycles⟩ t
      else engine.loop limit events.length t := by
  have hloop := loop_of_executes h hadmits running
  rw [Nat.zero_add] at hloop
  rw [engine.run_of_running origin limit s running, hloop]

/-- A run of as many steps as there are instructions that do not halt the processor. -/
theorem run_steps_of_executes {origin : UInt16} (running : s.cpu.isHalted = false)
    (h : engine.Executes (engine.start origin (.steps events.length) s) events t)
    (hrunning : t.cpu.isHalted = false) :
    let outcome : RunOutcome := ⟨.limitReached, events.length, t.cpu.cycles⟩
    engine.run origin (.steps events.length) s =
      .ok outcome ⟨t.cpu, engine.log (.limitReached outcome) t.seen⟩ := by
  have hadmits : (Limit.steps events.length).Admits 0 events :=
    Limit.admits_of_length_le (Nat.le_of_eq (Nat.zero_add _))
  have hreached : (Limit.steps events.length).isReached events.length t.cpu.cycles = true :=
    decide_eq_true (Nat.le_refl _)
  rw [run_of_executes running h hadmits, hrunning, if_neg Bool.false_ne_true, loop_eq,
    if_pos hreached, stop_apply]

end Engine

namespace Processor

open Engine

variable {cpu : Processor} {origin : UInt16} {limit : Limit} {events : List TraceEvent}

/-! ## Runs that do not exhaust the tick count -/

/-- The course of a run ends in a fault of the tick count only if the run does. -/
theorem overflows_iff_course (cpu : Processor) (origin : UInt16) (limit : Limit) :
    Watched.Overflows (recorder.run origin limit ⟨cpu, []⟩) ↔
      (cpu.course origin limit).outcome = .error .tickOverflow := by
  unfold course Watched.Overflows
  cases recorder.run origin limit ⟨cpu, []⟩ with
  | ok outcome s => simp [Course.ofResult]
  | error fault s => simp [Course.ofResult]

/-- A run that reports what it has done has not exhausted the tick count. -/
theorem ne_tickOverflow_of_reports {steps : Nat} {last : Processor}
    (h : Reports steps last (recorder.run origin limit ⟨cpu, []⟩)) :
    (cpu.course origin limit).outcome ≠ .error .tickOverflow := by
  rw [ne_eq, ← overflows_iff_course]
  rintro ⟨s, hrun⟩
  rw [hrun] at h
  obtain ⟨-, opcode, pc, hfault⟩ := h
  cases hfault

/-- A halted processor executes nothing. -/
theorem course_of_isHalted (halted : cpu.isHalted = true) (origin : UInt16) (limit : Limit) :
    cpu.course origin limit = ⟨.ok ⟨.halted, 0, cpu.cycles⟩, cpu, []⟩ := by
  unfold course
  rw [recorder.run_of_isHalted origin limit ⟨cpu, []⟩ halted]
  rfl

theorem course_steps_ne_tickOverflow {count : Nat}
    (room : cpu.cycles.count.toNat + 7 * count < UInt64.size) (origin : UInt16) :
    (cpu.course origin (.steps count)).outcome ≠ .error .tickOverflow := by
  cases running : cpu.isHalted with
  | true =>
    rw [course_of_isHalted running]
    exact nofun
  | false =>
    obtain ⟨events, t, hwithin⟩ := recorder.exists_withinSteps ⟨cpu, []⟩ origin running room
    exact ne_tickOverflow_of_reports hwithin.reports

theorem course_cycles_ne_tickOverflow (cpu : Processor) {bound : Nat}
    (hbound : bound + 7 ≤ UInt64.size) (origin : UInt16) :
    (cpu.course origin (.cycles bound)).outcome ≠ .error .tickOverflow := by
  cases running : cpu.isHalted with
  | true =>
    rw [course_of_isHalted running]
    exact nofun
  | false =>
    obtain ⟨events, t, hwithin⟩ := recorder.exists_withinTicks ⟨cpu, []⟩ origin running hbound
    exact ne_tickOverflow_of_reports hwithin.reports

/-! ## The same instructions under another limit -/

/-- A run that is allowed some instructions ends with them, if they halt the processor, or else goes
on after them. -/
theorem course_of_executes {t : Session (List TraceEvent)} (running : cpu.isHalted = false)
    (h : recorder.Executes ⟨cpu.jump origin, []⟩ events t) (hadmits : limit.Admits 0 events) :
    cpu.course origin limit = .ofResult
      (if t.cpu.isHalted then .ok ⟨.halted, events.length, t.cpu.cycles⟩ t
      else recorder.loop limit events.length t) := by
  unfold course
  rw [recorder.run_of_executes (s := ⟨cpu, []⟩) running h hadmits]

/-- A run that ends without a fault is the run of as many steps. -/
theorem course_steps_of_ok {outcome : RunOutcome}
    (h : (cpu.course origin limit).outcome = .ok outcome) :
    cpu.course origin (.steps outcome.steps) = cpu.course origin limit := by
  cases running : cpu.isHalted with
  | true => rw [course_of_isHalted running, course_of_isHalted running]
  | false =>
    obtain ⟨events, t, account⟩ := recorder.exists_account origin limit ⟨cpu, []⟩ running
    have hcounted : (Limit.steps events.length).Admits 0 events :=
      Limit.admits_of_length_le (Nat.le_of_eq (Nat.zero_add _))
    have hsame := course_of_executes running account.executes hcounted
    have hends := account.ends
    have hcourse : cpu.course origin limit = .ofResult (recorder.run origin limit ⟨cpu, []⟩) := rfl
    rw [hcourse] at h ⊢
    generalize recorder.run origin limit ⟨cpu, []⟩ = result at h hends
    cases hends with
    | halted halted =>
      cases h
      rw [hsame, halted]
      rfl
    | limitReached running' reached =>
      cases h
      have hstop : (Limit.steps events.length).isReached events.length t.cpu.cycles = true :=
        decide_eq_true (Nat.le_refl _)
      show cpu.course origin (.steps events.length) = _
      rw [hsame, running', loop_eq, hstop]
      rfl
    | failed unreached failure => cases h

/-- A run that fails because of an opcode without a row has executed the instructions of its events.
A run of more steps fails in the same way, and a run of no more steps stops after the first of these
instructions. -/
theorem course_steps_of_stuck {fault : Fault} (h : (cpu.course origin limit).outcome = .error fault)
    (hfault : fault ≠ .tickOverflow) :
    Chronicle (cpu.jump origin) (cpu.course origin limit).events (cpu.course origin limit).cpu ∧
      (∀ count, (cpu.course origin limit).events.length < count →
        cpu.course origin (.steps count) = cpu.course origin limit) ∧
      ∀ count, count ≤ (cpu.course origin limit).events.length →
        let last := (cpu.jump origin).after count
        cpu.course origin (.steps count) = ⟨.ok ⟨.limitReached, count, last.cycles⟩, last,
          (cpu.course origin limit).events.take count⟩ := by
  have running : cpu.isHalted = false := by
    cases running : cpu.isHalted with
    | false => rfl
    | true =>
      rw [course_of_isHalted running] at h
      cases h
  obtain ⟨events, t, account⟩ := recorder.exists_account origin limit ⟨cpu, []⟩ running
  have hends := account.ends
  have hcourse : cpu.course origin limit = .ofResult (recorder.run origin limit ⟨cpu, []⟩) := rfl
  rw [hcourse] at h ⊢
  generalize recorder.run origin limit ⟨cpu, []⟩ = result at h hends
  cases hends with
  | halted halted => cases h
  | limitReached running' reached => cases h
  | @failed fault' s' unreached failure =>
    cases h
    obtain ⟨⟨hrunning, hundecoded⟩, rfl, rfl⟩ := stuck_of_step_eq_error failure hfault
    have hseen : t.seen = events := seen_of_executes account.executes
    have hevents : (Course.ofResult (.error t.cpu.unimplemented (recorder.reject t))).events =
        events := hseen
    rw [hevents]
    refine ⟨account.executes.chronicle, ?_, ?_⟩
    · intro count hcount
      have hadmits : (Limit.steps count).Admits 0 events :=
        Limit.admits_of_length_le (by omega)
      have hunreached : (Limit.steps count).isReached events.length t.cpu.cycles = false :=
        decide_eq_false (by omega)
      rw [course_of_executes running account.executes hadmits, hrunning, loop_eq, hunreached,
        failure]
      rfl
    · intro count hcount
      obtain ⟨u, hfirst, hothers⟩ := account.executes.take count
      have hlength : (events.take count).length = count := List.length_take_of_le hcount
      have hadmits : (Limit.steps count).Admits 0 (events.take count) :=
        Limit.admits_of_length_le (by omega)
      have hreached : (Limit.steps count).isReached count u.cpu.cycles = true :=
        decide_eq_true (Nat.le_refl _)
      have hlast := hfirst.after.1
      have hseen : u.seen = events.take count := seen_of_executes hfirst
      -- an instruction follows, if only the one that fails
      have hrunning' : u.cpu.isHalted = false := by
        by_cases hnil : events.drop count = []
        · rw [hnil] at hothers
          cases hothers
          exact hrunning
        · exact hothers.running_of_ne_nil hnil
      rw [hlength] at hlast
      have hstart : (recorder.start origin limit ⟨cpu, []⟩).cpu = cpu.jump origin := rfl
      rw [hstart] at hlast
      rw [course_of_executes running hfirst hadmits, hrunning', hlength, loop_eq, hreached,
        ← hlast, ← hseen]
      rfl

/-- A limit of ticks and a limit of steps make the same runs. A run under a limit of ticks that ends
without a fault is the run of as many steps: they have the same outcome, leave the same processor
and have the same events. If it fails after some number of instructions, then every run of more
steps is that run too, and a run of no more steps comes to its limit after the first of those
instructions. Whoever watches, the outcome and the processor are those of the course. -/
theorem course_cycles_eq_steps {σ : Type} (engine : Engine σ) (s : Session σ) (origin : UInt16)
    {bound : Nat} (hbound : bound + 7 ≤ UInt64.size) :
    let timed := s.cpu.course origin (.cycles bound)
    (∀ outcome, timed.outcome = .ok outcome →
        s.cpu.course origin (.steps outcome.steps) = timed) ∧
      (∀ fault, timed.outcome = .error fault →
        Chronicle (s.cpu.jump origin) timed.events timed.cpu ∧
          (∀ count, timed.events.length < count → s.cpu.course origin (.steps count) = timed) ∧
          ∀ count, count ≤ timed.events.length →
            let last := (s.cpu.jump origin).after count
            s.cpu.course origin (.steps count) =
              ⟨.ok ⟨.limitReached, count, last.cycles⟩, last, timed.events.take count⟩) ∧
      ∀ limit, ∃ seen, engine.run origin limit s = (s.cpu.course origin limit).result seen := by
  refine ⟨fun outcome h => course_steps_of_ok h, ?_,
    fun limit => engine.exists_run_eq_result origin limit s⟩
  intro fault h
  apply course_steps_of_stuck h
  rintro rfl
  exact s.cpu.course_cycles_ne_tickOverflow hbound origin h

theorem course_cycles_eq_steps_of_trap :
    (9 + 7 ≤ UInt64.size ∧
      (trapAtTheStart.course 0xFFFF (.cycles 9)).outcome = .error (.unimplementedOpcode 0xFF 0) ∧
      (trapAtTheStart.course 0xFFFF (.cycles 9)).events.length = 1) ∧
      trapAtTheStart.course 0xFFFF (.steps 2) = trapAtTheStart.course 0xFFFF (.cycles 9) ∧
      ∃ ticks,
        (trapAtTheStart.course 0xFFFF (.steps 1)).outcome = .ok ⟨.limitReached, 1, ticks⟩ := by
  have hbound : 9 + 7 ≤ UInt64.size := by decide
  have hdecoded : decode? (trapAtTheStart.memory.get 0xFFFF) = some ⟨0x38, .sec, .implied, 2⟩ := by
    simp [trapAtTheStart, Memory.get_set]
    rfl
  have hbyte : trapped.memory.get trapped.registers.pc = 0xFF := by
    show trapAtTheStart.memory.get 0 = 0xFF
    simp [trapAtTheStart]
  have hstuck : trapped.Stuck := ⟨rfl, by rw [hbyte]; rfl⟩
  have hfault : trapped.unimplemented = .unimplementedOpcode 0xFF 0 := by
    unfold unimplemented
    rw [hbyte]
    rfl
  have hsec := recorder.step_of_decode?_eq_some ⟨trapAtTheStart, []⟩ rfl hdecoded (by decide)
  -- the byte at the first address is met before the limit
  have hrun : trapAtTheStart.course 0xFFFF (.cycles 9) =
      ⟨.error (.unimplementedOpcode 0xFF 0), trapped,
        [.capture trapAtTheStart ⟨0x38, .sec, .implied, 2⟩]⟩ := by
    unfold course
    rw [run_of_running _ _ _ _ rfl]
    show Course.ofResult (recorder.loop (.cycles 9) 0 ⟨trapAtTheStart, []⟩) = _
    rw [loop_eq, hsec, recorder.observe_eq]
    show Course.ofResult (recorder.loop (.cycles 9) 1 ⟨trapped, [.capture trapAtTheStart _]⟩) = _
    rw [loop_eq, step_of_stuck (s := ⟨trapped, _⟩) _ hstuck, hfault]
    rfl
  have houtcome : (trapAtTheStart.course 0xFFFF (.cycles 9)).outcome =
      .error (.unimplementedOpcode 0xFF 0) := by rw [hrun]
  have hlength : (trapAtTheStart.course 0xFFFF (.cycles 9)).events.length = 1 := by
    rw [hrun]
    rfl
  obtain ⟨-, hstuckCourse, -⟩ :=
    course_cycles_eq_steps recorder ⟨trapAtTheStart, []⟩ 0xFFFF hbound
  obtain ⟨-, hmore, hfewer⟩ := hstuckCourse _ houtcome
  rw [hlength] at hmore hfewer
  exact ⟨⟨hbound, houtcome, hlength⟩, hmore 2 (by decide),
    _, congrArg Course.outcome (hfewer 1 (by decide))⟩

end Processor

end Cpu6502
