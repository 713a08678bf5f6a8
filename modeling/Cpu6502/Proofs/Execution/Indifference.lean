import Cpu6502.Proofs.Execution.Frame
import Cpu6502.Proofs.Execution.Limits

/-! # What no instruction consults

Instructions look at the accumulator, the program counter, the flags N, V, Z and C and the memory,
and at nothing else. So two processors that agree on these do the same, whatever their other
registers and flags are: the relation `Processor.Agrees` is kept by every instruction
(`Agrees.next`), which costs both of them the same, and hence by every run (`loop_mirrors`). Only a
limit of ticks can tell how many ticks there were before.
-/

namespace Cpu6502

open Instruction

namespace Processor

/-- The two processors agree on all that instructions consult. They may differ in X, Y, the stack
pointer, the flags D, I and B, and the tick count. -/
structure Agrees (cpu cpu' : Processor) : Prop where
  a : cpu.registers.a = cpu'.registers.a
  pc : cpu.registers.pc = cpu'.registers.pc
  n : cpu.flags.n = cpu'.flags.n
  v : cpu.flags.v = cpu'.flags.v
  z : cpu.flags.z = cpu'.flags.z
  c : cpu.flags.c = cpu'.flags.c
  memory : cpu.memory = cpu'.memory
  state : cpu.state = cpu'.state

/-- The registers and flags that no instruction changes are as they were. -/
structure Keeps (cpu last : Processor) : Prop where
  x : last.registers.x = cpu.registers.x
  y : last.registers.y = cpu.registers.y
  sp : last.registers.sp = cpu.registers.sp
  d : last.flags.d = cpu.flags.d
  i : last.flags.i = cpu.flags.i

end Processor

/-- What an event shows of its instruction, with the ticks that have passed since `start`. -/
def TraceEvent.since (start : Ticks) (event : TraceEvent) : UInt16 × UInt8 × Mnemonic × Int :=
  (event.pc, event.opcode, event.mnemonic, event.cycles.count.toNat - start.count.toNat)

/-- How a run ended and after how many steps, or its fault. -/
def Course.verdict (course : Course) : Except Fault (Ending × Nat) :=
  course.outcome.map fun outcome => (outcome.ending, outcome.steps)

/-- The courses of runs from the processors `cpu` and `cpu'` differ only in what no instruction
consults. -/
structure Course.Mirrors (cpu cpu' : Processor) (course course' : Course) : Prop where
  verdict : course.verdict = course'.verdict
  agrees : course.cpu.Agrees course'.cpu
  ticks : cpu.ticksUntil course.cpu = cpu'.ticksUntil course'.cpu
  events : course.events.map (·.since cpu.cycles) = course'.events.map (·.since cpu'.cycles)

namespace Processor.Agrees

variable {cpu cpu' : Processor} {i : Instruction}

/-! ## The same instruction -/

theorem symm (h : cpu.Agrees cpu') : cpu'.Agrees cpu :=
  ⟨h.a.symm, h.pc.symm, h.n.symm, h.v.symm, h.z.symm, h.c.symm, h.memory.symm, h.state.symm⟩

theorem isHalted (h : cpu.Agrees cpu') : cpu.isHalted = cpu'.isHalted := by
  unfold Processor.isHalted
  rw [h.state]

theorem opcode (h : cpu.Agrees cpu') :
    cpu.memory.get cpu.registers.pc = cpu'.memory.get cpu'.registers.pc := by
  rw [h.memory, h.pc]

theorem operandByte (h : cpu.Agrees cpu') : cpu.operandByte = cpu'.operandByte := by
  unfold Processor.operandByte
  rw [h.memory, h.pc]

theorem operandCell (h : cpu.Agrees cpu') : cpu.operandCell = cpu'.operandCell := by
  unfold Processor.operandCell
  rw [h.operandByte]

theorem operandValue (h : cpu.Agrees cpu') : cpu.operandValue i = cpu'.operandValue i := by
  unfold Processor.operandValue
  rw [h.memory, h.operandCell, h.operandByte]

/-! ## The same way at the same price -/

theorem branches (h : cpu.Agrees cpu') : cpu.branches i = cpu'.branches i := by
  unfold Processor.branches
  rw [h.c]

theorem following (h : cpu.Agrees cpu') : cpu.following i = cpu'.following i := by
  unfold Processor.following
  rw [h.pc]

theorem successor (h : cpu.Agrees cpu') : cpu.successor i = cpu'.successor i := by
  unfold Processor.successor
  rw [h.branches, h.following, h.operandByte]

theorem cost (h : cpu.Agrees cpu') : cpu.cost i = cpu'.cost i := by
  unfold Processor.cost Processor.penalty
  rw [h.branches, h.following, h.successor]

theorem report (h : cpu.Agrees cpu') : cpu.report i = cpu'.report i := by
  unfold Processor.report
  rw [h.cost]

/-! ## The same effect -/

theorem jump (h : cpu.Agrees cpu') (target : UInt16) :
    (cpu.jump target).Agrees (cpu'.jump target) :=
  ⟨h.a, rfl, h.n, h.v, h.z, h.c, h.memory, h.state⟩

theorem effect (h : cpu.Agrees cpu') (i : Instruction) :
    (cpu.effect i).Agrees (cpu'.effect i) := by
  have hvalue := h.operandValue (i := i)
  have hcell := h.operandCell
  obtain ⟨ha, hpc, hn, hv, hz, hc, hmemory, hstate⟩ := h
  unfold Processor.effect
  cases i.mnemonic with
  | brk | nop | bcc | bcs => exact ⟨ha, hpc, hn, hv, hz, hc, hmemory, hstate⟩
  | clc | sec => exact ⟨ha, hpc, hn, hv, hz, rfl, hmemory, hstate⟩
  | lda =>
    rw [hvalue]
    exact ⟨rfl, hpc, rfl, hv, rfl, hc, hmemory, hstate⟩
  | sta =>
    have hstored : cpu.memory.set cpu.operandCell cpu.registers.a =
        cpu'.memory.set cpu'.operandCell cpu'.registers.a := by
      rw [hmemory, hcell, ha]
    exact ⟨ha, hpc, hn, hv, hz, hc, hstored, hstate⟩
  | adc =>
    -- the sum is that of two bytes and the carry, in whatever mode D is
    rw [hvalue]
    unfold addWithCarry
    rw [ha, hc]
    exact ⟨rfl, hpc, rfl, rfl, rfl, rfl, hmemory, hstate⟩
  | cmp =>
    rw [hvalue]
    unfold Processor.compare
    rw [ha]
    exact ⟨ha, hpc, rfl, hv, rfl, rfl, hmemory, hstate⟩
  | inc =>
    rw [hmemory, hcell]
    exact ⟨ha, hpc, rfl, hv, rfl, hc, rfl, hstate⟩

/-- One instruction keeps the agreement. -/
theorem next (h : cpu.Agrees cpu') (i : Instruction) : (cpu.next i).Agrees (cpu'.next i) := by
  have heffect := (h.effect i).jump (cpu.successor i)
  rw [h.successor] at heffect
  have hstate : (cpu.next i).state = (cpu'.next i).state := by
    rw [next_state, next_state, h.state]
  refine ⟨heffect.a, ?_, heffect.n, heffect.v, heffect.z, heffect.c, heffect.memory, hstate⟩
  rw [next_pc, next_pc, h.successor]

end Processor.Agrees

/-- The sessions have come the same way from the processors `cpu` and `cpu'`. -/
structure Session.Alike (cpu cpu' : Processor) (s t : Session (List TraceEvent)) : Prop where
  agrees : s.cpu.Agrees t.cpu
  ticks : cpu.ticksUntil s.cpu = cpu'.ticksUntil t.cpu
  events : s.seen.map (·.since cpu.cycles) = t.seen.map (·.since cpu'.cycles)

namespace Session.Alike

variable {cpu cpu' : Processor} {s t : Session (List TraceEvent)}

/-- Runs that end here have ended in the same way. -/
theorem mirrors_ok (h : Session.Alike cpu cpu' s t) (ending : Ending) (steps : Nat) :
    (Course.ofResult (.ok ⟨ending, steps, s.cpu.cycles⟩ s)).Mirrors cpu cpu'
      (Course.ofResult (.ok ⟨ending, steps, t.cpu.cycles⟩ t)) :=
  ⟨rfl, h.agrees, h.ticks, h.events⟩

/-- Runs that fail here have failed in the same way. -/
theorem mirrors_error (h : Session.Alike cpu cpu' s t) (fault : Fault) :
    (Course.ofResult (.error fault s)).Mirrors cpu cpu' (Course.ofResult (.error fault t)) :=
  ⟨rfl, h.agrees, h.ticks, h.events⟩

/-- The instruction that both processors come to is announced for both of them. -/
theorem events_append (h : Session.Alike cpu cpu' s t) (i : Instruction) :
    (s.seen ++ [TraceEvent.capture s.cpu i]).map (·.since cpu.cycles) =
      (t.seen ++ [TraceEvent.capture t.cpu i]).map (·.since cpu'.cycles) := by
  have hevent : (TraceEvent.capture s.cpu i).since cpu.cycles =
      (TraceEvent.capture t.cpu i).since cpu'.cycles := by
    show (s.cpu.registers.pc, i.opcode, i.mnemonic, cpu.ticksUntil s.cpu) =
      (t.cpu.registers.pc, i.opcode, i.mnemonic, cpu'.ticksUntil t.cpu)
    rw [h.agrees.pc, h.ticks]
  rw [List.map_append, List.map_append, h.events, List.map_singleton, List.map_singleton, hevent]

end Session.Alike

/-- After the same number of ticks the same tick counts are the same again. -/
theorem Processor.cycles_eq_of_ticksUntil {cpu cpu' last last' : Processor}
    (hcycles : cpu.cycles = cpu'.cycles) (h : cpu.ticksUntil last = cpu'.ticksUntil last') :
    last.cycles = last'.cycles := by
  unfold ticksUntil at h
  rw [hcycles] at h
  exact Ticks.ext (UInt64.toNat_inj.1 (by omega))

namespace Engine

variable {s t s' t' : Session (List TraceEvent)} {cpu cpu' : Processor}

/-! ## Steps -/

/-- A step exhausts the tick count if there is no room for the cost of the instruction. -/
theorem overflows_step_iff (running : s.cpu.isHalted = false) :
    Watched.Overflows (recorder.step s) ↔
      ∃ i, decode? (s.cpu.memory.get s.cpu.registers.pc) = some i ∧
        s.cpu.cycles.addCost? (s.cpu.cost i) = none := by
  unfold Watched.Overflows
  cases decoded : decode? (s.cpu.memory.get s.cpu.registers.pc) with
  | none =>
    rw [recorder.step_of_decode?_eq_none s running decoded]
    simp
  | some i =>
    rw [recorder.step_eq_settle s running decoded, settle_eq]
    cases hcharge : s.cpu.cycles.addCost? (s.cpu.cost i) with
    | none => simp [hcharge]
    | some cycles => simp [hcharge]

/-- Processors that agree exhaust the same tick count in the same step. -/
theorem overflows_step_congr (agrees : s.cpu.Agrees t.cpu) (hcycles : s.cpu.cycles = t.cpu.cycles)
    (running : s.cpu.isHalted = false) :
    Watched.Overflows (recorder.step s) ↔ Watched.Overflows (recorder.step t) := by
  rw [overflows_step_iff running, overflows_step_iff (agrees.isHalted ▸ running), agrees.opcode,
    hcycles]
  simp only [agrees.cost]

/-- A fault of the one step is a fault of the other. -/
theorem exists_step_eq_error {fault : Fault} (agrees : s.cpu.Agrees t.cpu)
    (hroom : Watched.Overflows (recorder.step s) → Watched.Overflows (recorder.step t))
    (hs : recorder.step s = .error fault s') : ∃ t', recorder.step t = .error fault t' := by
  rcases fault_of_step_eq_error hs with ⟨running, ⟨undecoded, rfl, -⟩ | ⟨rfl, -⟩⟩
  · have running' : t.cpu.isHalted = false := agrees.isHalted ▸ running
    rw [agrees.opcode] at undecoded ⊢
    rw [recorder.step_of_decode?_eq_none t running' undecoded, agrees.pc]
    exact ⟨_, rfl⟩
  · exact hroom ⟨s', hs⟩

/-- What a fault leaves behind. -/
theorem alike_of_error {fault : Fault} (h : Session.Alike cpu cpu' s t)
    (hs : recorder.step s = .error fault s') (ht : recorder.step t = .error fault t') :
    Session.Alike cpu cpu' s' t' := by
  have agrees := h.agrees
  by_cases hticks : fault = .tickOverflow
  · subst hticks
    obtain ⟨i, decoded, rfl⟩ := performed_of_overflow hs
    obtain ⟨i', decoded', rfl⟩ := performed_of_overflow ht
    rw [agrees.opcode, decoded'] at decoded
    cases decoded
    -- nothing has been charged yet
    have hcharged : ∀ cpu : Processor,
        ((cpu.effect i).jump (cpu.successor i)).cycles = cpu.cycles := fun cpu => cpu.effect_cycles i
    refine ⟨?_, ?_, h.events_append i⟩
    · dsimp only
      rw [agrees.successor]
      exact (agrees.effect i).jump _
    · have hbefore := h.ticks
      unfold Processor.ticksUntil at hbefore ⊢
      rw [hcharged, hcharged, hbefore]
  · obtain ⟨-, -, rfl⟩ := stuck_of_step_eq_error hs hticks
    obtain ⟨-, -, rfl⟩ := stuck_of_step_eq_error ht hticks
    exact h

/-- What an instruction leaves behind. -/
theorem alike_of_ok {report report' : Step} (h : Session.Alike cpu cpu' s t)
    (running : s.cpu.isHalted = false) (hs : recorder.step s = .ok report s')
    (ht : recorder.step t = .ok report' t') :
    report = report' ∧ Session.Alike cpu cpu' s' t' := by
  have running' : t.cpu.isHalted = false := h.agrees.isHalted ▸ running
  obtain ⟨i, decoded, rfl, rfl, hticks⟩ := executed_of_step_eq_ok running hs
  obtain ⟨i', decoded', rfl, rfl, hticks'⟩ := executed_of_step_eq_ok running' ht
  rw [h.agrees.opcode, decoded'] at decoded
  cases decoded
  refine ⟨h.agrees.report, h.agrees.next i, ?_, ?_⟩
  · have hbefore := h.ticks
    dsimp only at hticks hticks'
    unfold Processor.ticksUntil at hbefore ⊢
    rw [hticks, hticks', h.agrees.cost]
    omega
  · dsimp only
    rw [observe_recorder, observe_recorder]
    exact h.events_append i

/-- Sessions that have come the same way go on in the same way for one step, if both have room for
the ticks or neither has. -/
theorem step_alike (h : Session.Alike cpu cpu' s t) (running : s.cpu.isHalted = false)
    (hroom : Watched.Overflows (recorder.step s) ↔ Watched.Overflows (recorder.step t)) :
    (∃ fault s' t', recorder.step s = .error fault s' ∧ recorder.step t = .error fault t' ∧
        Session.Alike cpu cpu' s' t') ∨
      ∃ report s' t', recorder.step s = .ok report s' ∧ recorder.step t = .ok report t' ∧
        Session.Alike cpu cpu' s' t' := by
  cases hs : recorder.step s with
  | error fault s' =>
    left
    obtain ⟨t', ht⟩ := exists_step_eq_error h.agrees hroom.1 hs
    exact ⟨fault, s', t', rfl, ht, alike_of_error h hs ht⟩
  | ok report s' =>
    cases ht : recorder.step t with
    | error fault t' =>
      obtain ⟨s'', hs'⟩ := exists_step_eq_error h.agrees.symm hroom.2 ht
      rw [hs] at hs'
      cases hs'
    | ok report' t' =>
      right
      obtain ⟨rfl, halike⟩ := alike_of_ok h running hs ht
      exact ⟨report, s', t', rfl, rfl, halike⟩

end Engine

/-- The limit comes at the same place in two runs, one from `cpu` and one from `cpu'`, in which the
same number of ticks has passed. -/
def Limit.Common (limit : Limit) (cpu cpu' : Processor) : Prop :=
  ∀ (steps : Nat) (last last' : Processor), cpu.ticksUntil last = cpu'.ticksUntil last' →
    limit.isReached steps last.cycles = limit.isReached steps last'.cycles

/-- A limit of steps takes no account of the ticks. -/
theorem Limit.common_steps (count : Nat) (cpu cpu' : Processor) :
    (Limit.steps count).Common cpu cpu' := by
  intro steps last last' _
  rfl

theorem Limit.common_of_cycles_eq (limit : Limit) {cpu cpu' : Processor}
    (hcycles : cpu.cycles = cpu'.cycles) : limit.Common cpu cpu' := by
  intro steps last last' hticks
  rw [Processor.cycles_eq_of_ticksUntil hcycles hticks]

namespace Engine

variable {s t : Session (List TraceEvent)} {cpu cpu' : Processor} {limit : Limit}

/-- Two runs that have gone the same way so far go the same way to their ends, if their tick counts
are the same or neither of them exhausts its tick count. -/
theorem loop_mirrors (hlimit : limit.Common cpu cpu') (steps : Nat)
    (s t : Session (List TraceEvent)) (h : Session.Alike cpu cpu' s t)
    (running : s.cpu.isHalted = false)
    (hroom : cpu.cycles = cpu'.cycles ∨ ¬Watched.Overflows (recorder.loop limit steps s) ∧
      ¬Watched.Overflows (recorder.loop limit steps t)) :
    (Course.ofResult (recorder.loop limit steps s)).Mirrors cpu cpu'
      (Course.ofResult (recorder.loop limit steps t)) := by
  induction steps, s using recorder.loop_induction limit generalizing t with
  | turn steps s ih =>
    have hreached := hlimit steps s.cpu t.cpu h.ticks
    rw [loop_eq, loop_eq recorder limit steps t, ← hreached] at hroom ⊢
    cases hunreached : limit.isReached steps s.cpu.cycles with
    | true => exact h.mirrors_ok _ _
    | false =>
      rw [hunreached, if_neg Bool.false_ne_true, if_neg Bool.false_ne_true] at hroom
      have hstep : Watched.Overflows (recorder.step s) ↔ Watched.Overflows (recorder.step t) := by
        rcases hroom with hcycles | ⟨hs, ht⟩
        · exact overflows_step_congr h.agrees
            (Processor.cycles_eq_of_ticksUntil hcycles h.ticks) running
        · refine iff_of_false ?_ ?_
          · rintro ⟨s', hstep⟩
            rw [hstep] at hs
            exact hs ⟨s', rfl⟩
          · rintro ⟨t', hstep⟩
            rw [hstep] at ht
            exact ht ⟨t', rfl⟩
      rcases step_alike h running hstep with
        ⟨fault, s', t', hs, ht, halike⟩ | ⟨report, s', t', hs, ht, halike⟩
      · rw [hs, ht]
        exact halike.mirrors_error fault
      · rw [hs, ht] at hroom ⊢
        cases report with
        | halted => exact halike.mirrors_ok _ _
        | executed cost =>
          exact ih cost s' hunreached hs t' halike (running_of_step hs).2.1 hroom

end Engine

namespace Processor

open Engine

variable {cpu cpu' : Processor}

/-- Processors that agree have courses that mirror each other, if the limit comes at the same place,
and if the tick counts are the same or neither of them is exhausted. -/
theorem course_mirrors (agrees : cpu.Agrees cpu') {limit : Limit} (hlimit : limit.Common cpu cpu')
    (origin : UInt16)
    (hroom : cpu.cycles = cpu'.cycles ∨ (cpu.course origin limit).outcome ≠ .error .tickOverflow ∧
      (cpu'.course origin limit).outcome ≠ .error .tickOverflow) :
    (cpu.course origin limit).Mirrors cpu cpu' (cpu'.course origin limit) := by
  have hticks : cpu.ticksUntil (cpu.jump origin) = cpu'.ticksUntil (cpu'.jump origin) :=
    (ticksUntil_eq_zero rfl).trans (ticksUntil_eq_zero rfl).symm
  rw [ne_eq, ne_eq, ← overflows_iff_course, ← overflows_iff_course] at hroom
  unfold course
  cases running : cpu.isHalted with
  | true =>
    have running' : cpu'.isHalted = true := agrees.isHalted ▸ running
    rw [recorder.run_of_isHalted _ _ _ running, recorder.run_of_isHalted _ _ _ running']
    have halike : Session.Alike cpu cpu' ⟨cpu, []⟩ ⟨cpu', []⟩ := ⟨agrees, hticks, rfl⟩
    exact halike.mirrors_ok .halted 0
  | false =>
    have running' : cpu'.isHalted = false := agrees.isHalted ▸ running
    rw [recorder.run_of_running _ _ _ running, recorder.run_of_running _ _ _ running'] at hroom ⊢
    exact loop_mirrors hlimit 0 _ _ ⟨agrees.jump origin, hticks, rfl⟩ running hroom

/-- Events that show the same ticks since the same start show the same tick counts. -/
theorem map_cycles_of_map_since {start : Ticks} {events events' : List TraceEvent}
    (h : events.map (·.since start) = events'.map (·.since start)) :
    events.map (·.cycles) = events'.map (·.cycles) := by
  induction events generalizing events' with
  | nil =>
    rw [List.map_nil, eq_comm, List.map_eq_nil_iff] at h
    rw [h]
  | cons event events ih =>
    cases events' with
    | nil => cases h
    | cons event' events' =>
      obtain ⟨hevent, hrest⟩ := List.cons.inj h
      have hticks : (event.cycles.count.toNat : Int) - start.count.toNat =
          event'.cycles.count.toNat - start.count.toNat := congrArg (·.2.2.2) hevent
      have hcycles : event.cycles = event'.cycles := Ticks.ext (UInt64.toNat_inj.1 (by omega))
      rw [List.map_cons, List.map_cons, hcycles, ih hrest]

/-- Whatever happens in a run, X, Y, the stack pointer and the flags D and I stay as they are. -/
theorem keeps_course (cpu : Processor) (origin : UInt16) (limit : Limit) :
    cpu.Keeps (cpu.course origin limit).cpu := by
  have hframed := cpu.framed_course origin limit
  exact ⟨hframed.x, hframed.y, hframed.sp, hframed.d, hframed.i⟩

/-- Two processors that may differ in X, Y, the stack pointer, the flags D, I and B and the tick
count, but in nothing else, do the same in every run that is limited by steps and exhausts neither
tick count: they end in the same way after the same instructions and as many ticks, agree again, and
have kept their own X, Y, stack pointer, D and I. If the tick counts are the same, this holds of
every run whatsoever, and the events show the same tick counts. Whoever watches, the results are
those of the courses. -/
theorem course_indifferent {σ τ : Type} (engine : Engine σ) (engine' : Engine τ) (s : Session σ)
    (t : Session τ) (origin : UInt16) (agrees : s.cpu.Agrees t.cpu) :
    let course := s.cpu.course origin
    let course' := t.cpu.course origin
    (∀ count, (course (.steps count)).outcome ≠ .error .tickOverflow →
        (course' (.steps count)).outcome ≠ .error .tickOverflow →
          (course (.steps count)).Mirrors s.cpu t.cpu (course' (.steps count))) ∧
      (s.cpu.cycles = t.cpu.cycles → ∀ limit,
        (course limit).Mirrors s.cpu t.cpu (course' limit) ∧
          (course limit).events.map (·.cycles) = (course' limit).events.map (·.cycles)) ∧
      ∀ limit, s.cpu.Keeps (course limit).cpu ∧ t.cpu.Keeps (course' limit).cpu ∧
        (∃ seen, engine.run origin limit s = (course limit).result seen) ∧
        ∃ seen, engine'.run origin limit t = (course' limit).result seen := by
  refine ⟨?_, ?_, ?_⟩
  · intro count h h'
    exact course_mirrors agrees (Limit.common_steps count _ _) origin (.inr ⟨h, h'⟩)
  · intro hcycles limit
    have hmirrors := course_mirrors agrees (limit.common_of_cycles_eq hcycles) origin (.inl hcycles)
    have hevents := hmirrors.events
    rw [hcycles] at hevents
    exact ⟨hmirrors, map_cycles_of_map_since hevents⟩
  · intro limit
    exact ⟨s.cpu.keeps_course origin limit, t.cpu.keeps_course origin limit,
      engine.exists_run_eq_result origin limit s, engine'.exists_run_eq_result origin limit t⟩

/-- A processor that adds $28 to $19 and halts. -/
def binarySum : Session Unit where
  cpu :=
    { powerUp 0x0200 with
      registers := { Registers.powerUp 0x0200 with a := 0x19 }
      memory := (Memory.zeroed.set 0x0200 0x69).set 0x0201 0x28 }
  seen := ()

/-- The same sum in decimal mode, with other index registers and another tick count. -/
def decimalSum (count : UInt64) : Session Unit where
  cpu :=
    { binarySum.cpu with
      registers := { binarySum.cpu.registers with x := 0x01, y := 0x02, sp := 0x03 }
      flags := { b := true, d := true, i := true }
      cycles := ⟨count⟩ }
  seen := ()

theorem course_indifferent_of_decimal :
    (binarySum.cpu.Agrees (decimalSum 100).cpu ∧
      (binarySum.cpu.course 0x0200 (.steps 2)).outcome ≠ .error .tickOverflow ∧
      ((decimalSum 100).cpu.course 0x0200 (.steps 2)).outcome ≠ .error .tickOverflow) ∧
      (binarySum.cpu.course 0x0200 (.steps 2)).Mirrors binarySum.cpu (decimalSum 100).cpu
        ((decimalSum 100).cpu.course 0x0200 (.steps 2)) ∧
      (binarySum.cpu.course 0x0200 (.cycles 9)).Mirrors binarySum.cpu (decimalSum 0).cpu
        ((decimalSum 0).cpu.course 0x0200 (.cycles 9)) := by
  have agrees : ∀ count, binarySum.cpu.Agrees (decimalSum count).cpu := by
    intro count
    exact ⟨rfl, rfl, rfl, rfl, rfl, rfl, rfl, rfl⟩
  have hfirst : (binarySum.cpu.course 0x0200 (.steps 2)).outcome ≠ .error .tickOverflow :=
    course_steps_ne_tickOverflow (by decide) 0x0200
  have hsecond : ((decimalSum 100).cpu.course 0x0200 (.steps 2)).outcome ≠ .error .tickOverflow :=
    course_steps_ne_tickOverflow (by decide) 0x0200
  obtain ⟨hcounted, -, -⟩ := course_indifferent ({} : Engine Unit) ({} : Engine Unit)
    binarySum (decimalSum 100) 0x0200 (agrees 100)
  obtain ⟨-, htimed, -⟩ := course_indifferent ({} : Engine Unit) ({} : Engine Unit)
    binarySum (decimalSum 0) 0x0200 (agrees 0)
  exact ⟨⟨agrees 100, hfirst, hsecond⟩, hcounted 2 hfirst hsecond,
    (htimed rfl (.cycles 9)).1⟩

end Processor

end Cpu6502
