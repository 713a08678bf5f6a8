import Cpu6502.Proofs.Execution.Run

/-! # Failures

A processor is stuck when it is running and no row of the table decodes the byte at its program
counter. As long as the tick count has room for an instruction, the stuck processors are those of
which a step fails, and it fails before anything changes: all that comes of it is the fault, which
names the byte and its address, and a record of it in the log.

A run fails where one of its steps does. The instructions before that step have been executed, and
there is no way past it: whoever steps or runs on from there is given the same fault.
-/

namespace Cpu6502

open Instruction

namespace Processor

/-- The processor is running, and no row of the table decodes the byte at its program counter. -/
structure Stuck (cpu : Processor) : Prop where
  running : cpu.isHalted = false
  undecoded : decode? (cpu.memory.get cpu.registers.pc) = none

/-- The fault that names the byte at the program counter and its address. -/
def unimplemented (cpu : Processor) : Fault :=
  .unimplementedOpcode (cpu.memory.get cpu.registers.pc) cpu.registers.pc

end Processor

namespace Engine

variable {σ : Type} {engine : Engine σ} {s s' : Session σ} {fault : Fault}

/-- The session is as it was, except that the log has a record of the byte at the program counter
and its address. The hook has been given nothing. -/
def reject (engine : Engine σ) (s : Session σ) : Session σ where
  cpu := s.cpu
  seen := engine.log
    (.unimplementedOpcode (s.cpu.memory.get s.cpu.registers.pc) s.cpu.registers.pc) s.seen

/-! ## Steps -/

theorem step_of_stuck (engine : Engine σ) (h : s.cpu.Stuck) :
    engine.step s = .error s.cpu.unimplemented (engine.reject s) :=
  engine.step_of_decode?_eq_none s h.running h.undecoded

/-- A step that fails for another reason than the tick count was begun by a stuck processor. -/
theorem stuck_of_step_eq_error (h : engine.step s = .error fault s')
    (hfault : fault ≠ .tickOverflow) :
    s.cpu.Stuck ∧ fault = s.cpu.unimplemented ∧ s' = engine.reject s := by
  rcases fault_of_step_eq_error h with ⟨running, ⟨undecoded, hunimplemented, hs'⟩ | ⟨hticks, -⟩⟩
  · exact ⟨⟨running, undecoded⟩, hunimplemented, hs'⟩
  · exact absurd hticks hfault

theorem step_eq_error_iff (engine : Engine σ)
    (room : s.cpu.cycles.count.toNat + 7 < UInt64.size) :
    engine.step s = .error fault s' ↔
      s.cpu.Stuck ∧ fault = s.cpu.unimplemented ∧ s' = engine.reject s := by
  constructor
  · intro h
    apply stuck_of_step_eq_error h
    intro hticks
    rcases fault_of_step_eq_error h with ⟨-, ⟨-, hunimplemented, -⟩ | ⟨-, hfull⟩⟩
    · rw [hunimplemented] at hticks
      cases hticks
    · omega
  · rintro ⟨hstuck, rfl, rfl⟩
    exact engine.step_of_stuck hstuck

/-! ## Runs -/

/-- The run from `s` has executed the instructions of the events when, in the session `t`, it is
stuck. It leaves the processor there, and so does everyone who steps or runs on from there. -/
structure DeadEnd (engine : Engine σ) (origin : UInt16) (limit : Limit) (s : Session σ)
    (fault : Fault) (s' : Session σ) (events : List TraceEvent) (t : Session σ) : Prop where
  executes : engine.Executes (engine.start origin limit s) events t
  stuck : t.cpu.Stuck
  fault_eq : fault = t.cpu.unimplemented
  session_eq : s' = engine.reject t
  step_again : ∀ seen, engine.step ⟨s'.cpu, seen⟩ = .error fault (engine.reject ⟨s'.cpu, seen⟩)
  run_again : ∀ limit' seen, limit'.isReached 0 s'.cpu.cycles = false →
    engine.run s'.cpu.registers.pc limit' ⟨s'.cpu, seen⟩ =
      .error fault
        (engine.reject ⟨s'.cpu, engine.log (.runStarted s'.cpu.registers.pc limit') seen⟩)

/-- A run from a program counter that is stuck, with a limit that is not reached, gets nowhere. -/
theorem run_of_stuck (engine : Engine σ) {limit : Limit} (h : s.cpu.Stuck)
    (unreached : limit.isReached 0 s.cpu.cycles = false) :
    engine.run s.cpu.registers.pc limit s =
      .error s.cpu.unimplemented
        (engine.reject ⟨s.cpu, engine.log (.runStarted s.cpu.registers.pc limit) s.seen⟩) := by
  -- the processor stands at the origin already, so the start changes only what is seen
  let started := engine.start s.cpu.registers.pc limit s
  have hfails : engine.step started = .error s.cpu.unimplemented (engine.reject started) :=
    engine.step_of_stuck h
  have hunreached : limit.isReached 0 started.cpu.cycles = false := unreached
  rw [engine.run_of_running _ limit s h.running, loop_eq, hunreached, hfails]
  rfl

theorem exists_deadEnd {origin : UInt16} {limit : Limit}
    (h : engine.run origin limit s = .error fault s') (hfault : fault ≠ .tickOverflow) :
    ∃ events t, engine.DeadEnd origin limit s fault s' events t := by
  have running : s.cpu.isHalted = false := by
    cases hhalted : s.cpu.isHalted with
    | false => rfl
    | true =>
      rw [engine.run_of_isHalted origin limit s hhalted] at h
      cases h
  rcases engine.exists_account origin limit s running with ⟨events, t, account⟩
  have hends := account.ends
  rw [h] at hends
  cases hends with
  | failed unreached failure =>
    rcases stuck_of_step_eq_error failure hfault with ⟨hstuck, rfl, rfl⟩
    exact ⟨events, t, account.executes, hstuck, rfl, rfl,
      fun seen => engine.step_of_stuck (s := ⟨t.cpu, seen⟩) hstuck,
      fun limit' seen => engine.run_of_stuck (s := ⟨t.cpu, seen⟩) hstuck⟩

/-- Nothing is executed in part. With room for an instruction, a step fails if and only if the
processor is stuck, and then it changes nothing but the log. Whatever the tick count, the fault is
never one of memory or of an operand. A run that fails leaves the processor as the instructions
before the failure have left it, and from there every further step or run fails in the same way. -/
theorem no_partial_execution (engine : Engine σ) (s : Session σ) :
    (s.cpu.cycles.count.toNat + 7 < UInt64.size → ∀ fault s',
        engine.step s = .error fault s' ↔
          s.cpu.Stuck ∧ fault = s.cpu.unimplemented ∧ s' = engine.reject s) ∧
      (∀ fault s', engine.step s = .error fault s' →
        fault = .tickOverflow ∨ fault = s.cpu.unimplemented) ∧
      ∀ origin limit fault s', engine.run origin limit s = .error fault s' →
        fault ≠ .tickOverflow → ∃ events t, engine.DeadEnd origin limit s fault s' events t := by
  refine ⟨fun room fault s' => engine.step_eq_error_iff room, ?_,
    fun origin limit fault s' h hfault => exists_deadEnd h hfault⟩
  intro fault s' h
  by_cases hticks : fault = .tickOverflow
  · exact Or.inl hticks
  · exact Or.inr (stuck_of_step_eq_error h hticks).2.1

/-- A SEC at the last address, before a byte at the first that no row decodes. -/
def trapAtTheStart : Processor :=
  { Processor.powerUp 0xFFFF with memory := (Memory.zeroed.set 0xFFFF 0x38).set 0 0xFF }

/-- The state of that processor when it is stuck. -/
def trapped : Processor := trapAtTheStart.next ⟨0x38, .sec, .implied, 2⟩

theorem no_partial_execution_after_sec :
    (trapAtTheStart.cycles.count.toNat + 7 < UInt64.size ∧
      (∃ seen, ({} : Engine Unit).run 0xFFFF (.steps 5) ⟨trapAtTheStart, ()⟩ =
        .error (.unimplementedOpcode 0xFF 0) ⟨trapped, seen⟩) ∧
      Fault.unimplementedOpcode 0xFF 0 ≠ .tickOverflow) ∧
      ¬ trapAtTheStart.Stuck ∧
      ∃ events t, ({} : Engine Unit).DeadEnd 0xFFFF (.steps 5) ⟨trapAtTheStart, ()⟩
        (.unimplementedOpcode 0xFF 0) ⟨trapped, ()⟩ events t := by
  have hroom : trapAtTheStart.cycles.count.toNat + 7 < UInt64.size := by decide
  have hdecoded : decode? (trapAtTheStart.memory.get 0xFFFF) = some ⟨0x38, .sec, .implied, 2⟩ := by
    simp [trapAtTheStart, Memory.get_set]
    rfl
  have hsec := ({} : Engine Unit).step_of_decode?_eq_some ⟨trapAtTheStart, ()⟩ rfl hdecoded hroom
  -- the program counter has come round to the first address
  have hbyte : trapped.memory.get trapped.registers.pc = 0xFF := by
    show trapAtTheStart.memory.get 0 = 0xFF
    simp [trapAtTheStart]
  have hstuck : trapped.Stuck := ⟨rfl, by rw [hbyte]; rfl⟩
  have hfault : trapped.unimplemented = .unimplementedOpcode 0xFF 0 := by
    unfold Processor.unimplemented
    rw [hbyte]
    rfl
  have hrun : ({} : Engine Unit).run 0xFFFF (.steps 5) ⟨trapAtTheStart, ()⟩ =
      .error (.unimplementedOpcode 0xFF 0) ⟨trapped, ()⟩ := by
    rw [run_of_running _ _ _ _ rfl]
    show ({} : Engine Unit).loop (.steps 5) 0 ⟨trapAtTheStart, ()⟩ = _
    rw [loop_eq, hsec]
    show ({} : Engine Unit).loop (.steps 5) 1 ⟨trapped, ()⟩ = _
    rw [loop_eq, step_of_stuck (s := ⟨trapped, ()⟩) _ hstuck, hfault]
    rfl
  have hne : Fault.unimplementedOpcode 0xFF 0 ≠ .tickOverflow := by decide
  rcases no_partial_execution {} ⟨trapAtTheStart, ()⟩ with ⟨hstep, -, hruns⟩
  refine ⟨⟨hroom, ⟨(), hrun⟩, hne⟩, ?_, hruns _ _ _ _ hrun hne⟩
  intro hfirst
  have hfails := (hstep hroom _ _).2 ⟨hfirst, rfl, rfl⟩
  rw [hsec] at hfails
  cases hfails

end Engine

end Cpu6502
