import Cpu6502.Engine.Run
import Cpu6502.Proofs.Execution.Sequence

/-! # What a run does

A run goes round a loop: it stops at its limit, and otherwise executes one instruction and goes on,
unless that instruction halts the processor or fails. `Engine.loop_eq` is this loop as an equation,
from which the number of instructions that bounds the recursion has disappeared.

`Engine.Account` tells of a run from its beginning to its end: the instructions that it executes,
none of which begins at the limit, and the reason for which it ends. Every run has an account.
-/

namespace Cpu6502

open Instruction

namespace Limit

/-- The instructions, or the ticks, that are left before the limit. -/
def rest (limit : Limit) (steps : Nat) (ticks : Ticks) : Nat :=
  match limit with
  | .steps count => count - steps
  | .cycles count => count - ticks.count.toNat

variable {limit : Limit} {steps : Nat} {ticks ticks' : Ticks}

theorem isReached_iff_rest : limit.isReached steps ticks = true ↔ limit.rest steps ticks = 0 := by
  unfold isReached rest
  cases limit with
  | steps count => rw [decide_eq_true_eq, Nat.sub_eq_zero_iff_le]
  | cycles count => rw [decide_eq_true_eq, Nat.sub_eq_zero_iff_le]

/-- An instruction, which takes some ticks, brings a run closer to its limit. -/
theorem rest_lt (hreached : limit.isReached steps ticks = false)
    (hticks : ticks.count.toNat < ticks'.count.toNat) :
    limit.rest (steps + 1) ticks' < limit.rest steps ticks := by
  unfold isReached at hreached
  unfold rest
  cases limit with
  | steps count =>
    rw [decide_eq_false_iff_not] at hreached
    dsimp only
    omega
  | cycles count =>
    rw [decide_eq_false_iff_not] at hreached
    dsimp only
    omega

/-- Each of the instructions begins before the limit, if `steps` have been executed before them. -/
def Admits (limit : Limit) : (steps : Nat) → List TraceEvent → Prop
  | _, [] => True
  | steps, event :: events =>
    limit.isReached steps event.cycles = false ∧ limit.Admits (steps + 1) events

theorem admits_append_iff {events events' : List TraceEvent} :
    limit.Admits steps (events ++ events') ↔
      limit.Admits steps events ∧ limit.Admits (steps + events.length) events' := by
  induction events generalizing steps with
  | nil => exact (and_iff_right trivial).symm
  | cons event events ih =>
    rw [List.cons_append, Admits, Admits, ih, and_assoc, List.length_cons, Nat.add_assoc,
      Nat.add_comm 1]

/-- What one limit admits is admitted by another that is reached no earlier. -/
theorem Admits.mono {limit' : Limit} {events : List TraceEvent} (h : limit.Admits steps events)
    (hlater : ∀ steps ticks, limit.isReached steps ticks = false →
      limit'.isReached steps ticks = false) : limit'.Admits steps events := by
  induction events generalizing steps with
  | nil => trivial
  | cons event events ih => exact ⟨hlater _ _ h.1, ih h.2⟩

theorem Admits.length_le {count : Nat} {events : List TraceEvent}
    (h : (Limit.steps count).Admits steps events) (hsteps : steps ≤ count) :
    steps + events.length ≤ count := by
  induction events generalizing steps with
  | nil => exact hsteps
  | cons event events ih =>
    have hunreached : decide (count ≤ steps) = false := h.1
    rw [decide_eq_false_iff_not] at hunreached
    have hrest := ih h.2 (by omega)
    rwa [Nat.add_assoc, Nat.add_comm 1] at hrest

end Limit

namespace Processor

theorem two_le_cost (cpu : Processor) {i : Instruction} (hi : i ∈ table) :
    2 ≤ (cpu.cost i).toNat := by
  have hbase : ∀ i ∈ table, 2 ≤ i.cycles.toNat := by decide
  rw [cpu.cost_toNat hi]
  exact Nat.le_trans (hbase i hi) (Nat.le_add_right _ _)

theorem isHalted_next_of_brk (cpu : Processor) {i : Instruction} (hbrk : i.mnemonic = .brk) :
    (cpu.next i).isHalted = true := by
  unfold isHalted
  rw [next_state, if_pos hbrk]
  rfl

theorem isHalted_next_of_ne_brk {cpu : Processor} {i : Instruction}
    (running : cpu.isHalted = false) (hother : i.mnemonic ≠ .brk) :
    (cpu.next i).isHalted = false := by
  rw [isHalted_eq_false_iff] at running ⊢
  rw [next_state, if_neg hother, running]

end Processor

namespace Engine

variable {σ : Type} {engine : Engine σ} {limit : Limit} {steps : Nat} {s s' : Session σ}

/-! ## The loop -/

theorem stop_apply (engine : Engine σ) (steps : Nat) (s : Session σ) :
    engine.stop steps s =
      .ok ⟨.limitReached, steps, s.cpu.cycles⟩
        { s with seen := engine.log (.limitReached ⟨.limitReached, steps, s.cpu.cycles⟩) s.seen } :=
  rfl

theorem continueRun_succ (engine : Engine σ) (limit : Limit) (allowance steps : Nat)
    (s : Session σ) :
    engine.continueRun limit (allowance + 1) steps s =
      if limit.isReached steps s.cpu.cycles then engine.stop steps s
      else
        match engine.step s with
        | .ok .halted s' => .ok ⟨.halted, steps + 1, s'.cpu.cycles⟩ s'
        | .ok (.executed _) s' => engine.continueRun limit allowance (steps + 1) s'
        | .error fault s' => .error fault s' := by
  show (if limit.isReached steps s.cpu.cycles then _ else _ : Watched σ RunOutcome) s = _
  split
  · rfl
  · show EStateM.bind engine.step _ s = _
    unfold EStateM.bind
    cases engine.step s with
    | error fault s' => rfl
    | ok report s' =>
      cases report with
      | halted => rfl
      | executed cost => rfl

/-- A step that executes an instruction and goes on leaves the processor running, with more
ticks. -/
theorem running_of_step {cost : UInt32} (h : engine.step s = .ok (.executed cost) s') :
    s.cpu.isHalted = false ∧ s'.cpu.isHalted = false ∧
      s.cpu.cycles.count.toNat < s'.cpu.cycles.count.toNat := by
  have running : s.cpu.isHalted = false := by
    cases hhalted : s.cpu.isHalted with
    | false => rfl
    | true =>
      rw [engine.step_of_isHalted s hhalted] at h
      cases h
  rcases executed_of_step_eq_ok running h with ⟨i, decoded, hreport, rfl, hticks⟩
  have hcost := s.cpu.two_le_cost (decode?_eq_some decoded).1
  refine ⟨running, ?_, by omega⟩
  unfold Processor.report at hreport
  split at hreport
  · cases hreport
  · rename_i hother
    exact Processor.isHalted_next_of_ne_brk running hother

/-- A run that has executed `steps` instructions goes on. -/
def loop (engine : Engine σ) (limit : Limit) (steps : Nat) : Watched σ RunOutcome := fun s =>
  engine.continueRun limit (limit.rest steps s.cpu.cycles) steps s

/-- More instructions than are left before the limit make no difference. -/
theorem continueRun_eq_loop {allowance : Nat}
    (h : limit.rest steps s.cpu.cycles ≤ allowance) :
    engine.continueRun limit allowance steps s = engine.loop limit steps s := by
  -- any two sufficient allowances give the same, by induction on the first
  have hsame : ∀ (allowance allowance' steps : Nat) (s : Session σ),
      limit.rest steps s.cpu.cycles ≤ allowance → limit.rest steps s.cpu.cycles ≤ allowance' →
      engine.continueRun limit allowance steps s = engine.continueRun limit allowance' steps s := by
    have hstop : ∀ (allowance steps : Nat) (s : Session σ), limit.rest steps s.cpu.cycles = 0 →
        engine.continueRun limit allowance steps s = engine.stop steps s := by
      intro allowance steps s hrest
      cases allowance with
      | zero => rfl
      | succ allowance => rw [continueRun_succ, if_pos (Limit.isReached_iff_rest.2 hrest)]
    intro allowance
    induction allowance with
    | zero =>
      intro allowance' steps s hle hle'
      have hrest := Nat.le_zero.1 hle
      rw [hstop _ _ _ hrest, hstop _ _ _ hrest]
    | succ allowance ih =>
      intro allowance' steps s hle hle'
      cases hreached : limit.isReached steps s.cpu.cycles with
      | true =>
        have hrest := Limit.isReached_iff_rest.1 hreached
        rw [hstop _ _ _ hrest, hstop _ _ _ hrest]
      | false =>
        cases allowance' with
        | zero =>
          have hrest := Limit.isReached_iff_rest.2 (Nat.le_zero.1 hle')
          rw [hreached] at hrest
          cases hrest
        | succ allowance' =>
          rw [continueRun_succ, continueRun_succ, hreached]
          cases hstep : engine.step s with
          | error fault s' => rfl
          | ok report s' =>
            cases report with
            | halted => rfl
            | executed cost =>
              have hcloser := Limit.rest_lt hreached (running_of_step hstep).2.2
              exact ih allowance' (steps + 1) s' (by omega) (by omega)
  exact hsame _ _ _ _ h (Nat.le_refl _)

/-- Once round the loop. -/
theorem loop_eq (engine : Engine σ) (limit : Limit) (steps : Nat) (s : Session σ) :
    engine.loop limit steps s =
      if limit.isReached steps s.cpu.cycles then engine.stop steps s
      else
        match engine.step s with
        | .ok .halted s' => .ok ⟨.halted, steps + 1, s'.cpu.cycles⟩ s'
        | .ok (.executed _) s' => engine.loop limit (steps + 1) s'
        | .error fault s' => .error fault s' := by
  rw [← continueRun_eq_loop (Nat.le_succ _), continueRun_succ]
  cases hreached : limit.isReached steps s.cpu.cycles with
  | true => rfl
  | false =>
    cases hstep : engine.step s with
    | error fault s' => rfl
    | ok report s' =>
      cases report with
      | halted => rfl
      | executed cost =>
        have hcloser := Limit.rest_lt hreached (running_of_step hstep).2.2
        exact continueRun_eq_loop (Nat.le_of_lt hcloser)

/-- What holds at a turn of the loop if it holds at the next turn holds at every turn. -/
theorem loop_induction (engine : Engine σ) (limit : Limit) {P : Nat → Session σ → Prop}
    (turn : ∀ steps s,
      (∀ cost s', limit.isReached steps s.cpu.cycles = false →
        engine.step s = .ok (.executed cost) s' → P (steps + 1) s') → P steps s)
    (steps : Nat) (s : Session σ) : P steps s := by
  -- the limit comes closer with every turn
  have hall : ∀ (rest steps : Nat) (s : Session σ), limit.rest steps s.cpu.cycles ≤ rest →
      P steps s := by
    intro rest
    induction rest with
    | zero =>
      intro steps s hrest
      apply turn
      intro cost s' hreached
      rw [Limit.isReached_iff_rest.2 (Nat.le_zero.1 hrest)] at hreached
      cases hreached
    | succ rest ih =>
      intro steps s hrest
      apply turn
      intro cost s' hreached hstep
      have hcloser := Limit.rest_lt hreached (running_of_step hstep).2.2
      exact ih (steps + 1) s' (by omega)
  exact hall _ steps s (Nat.le_refl _)

/-- The session in which a run begins its first instruction. -/
def start (engine : Engine σ) (origin : UInt16) (limit : Limit) (s : Session σ) : Session σ where
  cpu := s.cpu.jump origin
  seen := engine.log (.runStarted origin limit) s.seen

theorem run_of_isHalted (engine : Engine σ) (origin : UInt16) (limit : Limit) (s : Session σ)
    (h : s.cpu.isHalted = true) :
    engine.run origin limit s = .ok ⟨.halted, 0, s.cpu.cycles⟩ s := by
  show (if s.cpu.isHalted then _ else _ : Watched σ RunOutcome) s = _
  rw [if_pos h]
  rfl

theorem run_of_running (engine : Engine σ) (origin : UInt16) (limit : Limit) (s : Session σ)
    (running : s.cpu.isHalted = false) :
    engine.run origin limit s = engine.loop limit 0 (engine.start origin limit s) := by
  have hallowance : limit.allowance s.cpu.cycles = limit.rest 0 s.cpu.cycles := by
    cases limit <;> rfl
  show (if s.cpu.isHalted then _ else _ : Watched σ RunOutcome) s = _
  rw [if_neg (by simp [running])]
  show engine.continueRun limit (limit.allowance s.cpu.cycles) 0 (engine.start origin limit s) = _
  rw [hallowance]
  rfl

/-! ## Accounts of runs -/

/-- How a run ends that has executed `steps` instructions, in the state that they have left: the
last of them halted the processor, or the limit is reached, or the next instruction fails. -/
inductive Ends (engine : Engine σ) (limit : Limit) (steps : Nat) (s : Session σ) :
    EStateM.Result Fault (Session σ) RunOutcome → Prop where
  | halted (halted : s.cpu.isHalted = true) :
      Ends engine limit steps s (.ok ⟨.halted, steps, s.cpu.cycles⟩ s)
  | limitReached (running : s.cpu.isHalted = false)
      (reached : limit.isReached steps s.cpu.cycles = true) :
      Ends engine limit steps s (engine.stop steps s)
  | failed {fault : Fault} {s' : Session σ} (unreached : limit.isReached steps s.cpu.cycles = false)
      (failure : engine.step s = .error fault s') :
      Ends engine limit steps s (.error fault s')

/-- The run from `s` executes the instructions of the events, each of them before the limit, and
ends in the state `t` that they leave. -/
structure Account (engine : Engine σ) (origin : UInt16) (limit : Limit) (s : Session σ)
    (events : List TraceEvent) (t : Session σ) : Prop where
  executes : engine.Executes (engine.start origin limit s) events t
  admits : limit.Admits 0 events
  ends : engine.Ends limit events.length t (engine.run origin limit s)

theorem halted_of_report {i : Instruction} (hreport : Step.halted = s.cpu.report i) :
    (s.cpu.next i).isHalted = true := by
  unfold Processor.report at hreport
  split at hreport
  · rename_i hbrk
    exact s.cpu.isHalted_next_of_brk hbrk
  · cases hreport

/-- What is left of a run that has executed `steps` instructions. -/
theorem loop_account (engine : Engine σ) (limit : Limit) (steps : Nat) (s : Session σ)
    (running : s.cpu.isHalted = false) :
    ∃ events t, engine.Executes s events t ∧ limit.Admits steps events ∧
      engine.Ends limit (steps + events.length) t (engine.loop limit steps s) := by
  induction steps, s using engine.loop_induction limit with
  | turn steps s ih =>
    rw [loop_eq]
    cases hreached : limit.isReached steps s.cpu.cycles with
    | true => exact ⟨[], s, .done s, trivial, .limitReached running hreached⟩
    | false =>
      cases hstep : engine.step s with
      | error fault s' => exact ⟨[], s, .done s, trivial, .failed hreached hstep⟩
      | ok report s' =>
        rcases executed_of_step_eq_ok running hstep with ⟨i, decoded, hreport, hs', -⟩
        cases report with
        | halted =>
          -- the instruction was a BRK, and it is the last
          have hhalted : s'.cpu.isHalted = true := by
            rw [hs']
            exact halted_of_report hreport
          exact ⟨[.capture s.cpu i], s', .step running decoded hstep (.done s'),
            ⟨hreached, trivial⟩, .halted hhalted⟩
        | executed cost =>
          rcases ih cost s' hreached hstep (running_of_step hstep).2.1 with
            ⟨events, t, hexecutes, hadmits, hends⟩
          rw [Nat.add_assoc, Nat.add_comm 1] at hends
          exact ⟨.capture s.cpu i :: events, t, .step running decoded hstep hexecutes,
            ⟨hreached, hadmits⟩, hends⟩

/-- Every run of a running processor has an account. -/
theorem exists_account (engine : Engine σ) (origin : UInt16) (limit : Limit) (s : Session σ)
    (running : s.cpu.isHalted = false) : ∃ events t, engine.Account origin limit s events t := by
  rcases engine.loop_account limit 0 (engine.start origin limit s) running with
    ⟨events, t, hexecutes, hadmits, hends⟩
  rw [← engine.run_of_running origin limit s running, Nat.zero_add] at hends
  exact ⟨events, t, hexecutes, hadmits, hends⟩

/-! ## From instructions to runs -/

/-- A processor that is halted executes nothing. -/
theorem Executes.of_isHalted {events : List TraceEvent} {t : Session σ}
    (h : engine.Executes s events t) (halted : s.cpu.isHalted = true) : events = [] ∧ t = s := by
  cases h with
  | done => exact ⟨rfl, rfl⟩
  | step running =>
    rw [halted] at running
    cases running

/-- A run that comes past some instructions ends with them, if they halt the processor, or else goes
on after them. -/
theorem loop_of_executes {events : List TraceEvent} {t : Session σ}
    (h : engine.Executes s events t) (hadmits : limit.Admits steps events)
    (running : s.cpu.isHalted = false) :
    engine.loop limit steps s =
      if t.cpu.isHalted then .ok ⟨.halted, steps + events.length, t.cpu.cycles⟩ t
      else engine.loop limit (steps + events.length) t := by
  induction h generalizing steps with
  | done s =>
    rw [running]
    rfl
  | @step s s' t i report events running' decoded first rest ih =>
    have hunreached : limit.isReached steps s.cpu.cycles = false := hadmits.1
    rw [loop_eq, hunreached, first]
    cases report with
    | halted =>
      rcases executed_of_step_eq_ok running' first with ⟨i, -, hreport, rfl, -⟩
      rcases rest.of_isHalted (halted_of_report hreport) with ⟨rfl, rfl⟩
      rw [halted_of_report hreport]
      rfl
    | executed cost =>
      have hrest := ih hadmits.2 (running_of_step first).2.1
      rw [Nat.add_assoc, Nat.add_comm 1] at hrest
      exact hrest

end Engine

end Cpu6502
