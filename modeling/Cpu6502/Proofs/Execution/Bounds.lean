import Cpu6502.Proofs.Execution.Run

/-! # How long a run takes

Every instruction takes from two to five ticks, except for BRK, which takes seven and is the last.
So a limit bounds the instructions of a run and the ticks that it takes: a run with a limit of ticks
executes about half as many instructions at most, and overshoots the limit only by what is left of
its last instruction.
-/

namespace Cpu6502

open Instruction

namespace Processor

variable {i : Instruction}

theorem cost_le_five (cpu : Processor) (hi : i ∈ table) (hbrk : i.mnemonic ≠ .brk) :
    (cpu.cost i).toNat ≤ 5 := by
  -- only branches have a penalty, and their base cost is low
  have hbase : ∀ i ∈ table, i.mnemonic ≠ .brk →
      i.cycles.toNat ≤ 5 ∧ (i.mode = .relative → i.cycles.toNat ≤ 3) := by decide
  rcases hbase i hi hbrk with ⟨hcycles, hbranch⟩
  have hpenalty := cpu.penalty_le i
  rw [cpu.cost_toNat hi]
  by_cases hmode : i.mode = .relative
  · have hlow := hbranch hmode
    omega
  · have hfree : ¬ cpu.branches i = true := mt (relative_of_branches hi) hmode
    unfold penalty
    rw [if_neg hfree]
    exact hcycles

/-- The ticks by which a BRK, after which the processor is halted, takes longer than any other
instruction. -/
def excess (cpu : Processor) : Nat :=
  if cpu.isHalted then 2 else 0

theorem excess_of_running {cpu : Processor} (running : cpu.isHalted = false) : cpu.excess = 0 := by
  unfold excess
  rw [running]
  rfl

theorem excess_of_isHalted {cpu : Processor} (halted : cpu.isHalted = true) : cpu.excess = 2 := by
  unfold excess
  rw [halted]
  rfl

theorem excess_le_two (cpu : Processor) : cpu.excess ≤ 2 := by
  unfold excess
  split <;> decide

end Processor

namespace Engine

variable {σ : Type} {engine : Engine σ} {limit : Limit} {origin : UInt16} {s s' t : Session σ}
  {events : List TraceEvent}

/-! ## The ticks of many instructions -/

/-- The ticks of one step. -/
theorem ticks_of_step {report : Step} (running : s.cpu.isHalted = false)
    (h : engine.step s = .ok report s') :
    s.cpu.cycles.count.toNat + 2 ≤ s'.cpu.cycles.count.toNat ∧
      s'.cpu.cycles.count.toNat ≤ s.cpu.cycles.count.toNat + 5 + s'.cpu.excess := by
  rcases executed_of_step_eq_ok running h with ⟨i, decoded, -, rfl, hticks⟩
  have hi := (decode?_eq_some decoded).1
  have hlow := s.cpu.two_le_cost hi
  refine ⟨by omega, ?_⟩
  by_cases hbrk : i.mnemonic = .brk
  · have hhigh := s.cpu.cost_le_seven hi
    have hexcess := Processor.excess_of_isHalted (s.cpu.isHalted_next_of_brk hbrk)
    dsimp only at hticks ⊢
    omega
  · have hhigh := s.cpu.cost_le_five hi hbrk
    dsimp only at hticks ⊢
    omega

/-- Every instruction takes at least two ticks and at most five, and a BRK two more. -/
theorem Executes.ticks (h : engine.Executes s events t) :
    s.cpu.cycles.count.toNat + 2 * events.length ≤ t.cpu.cycles.count.toNat ∧
      t.cpu.cycles.count.toNat ≤
        s.cpu.cycles.count.toNat + 5 * events.length + t.cpu.excess := by
  induction h with
  | done s => exact ⟨Nat.le_refl _, Nat.le_add_right _ _⟩
  | @step s s' t i report events running decoded first rest ih =>
    rcases ticks_of_step running first with ⟨hlow, hhigh⟩
    rw [List.length_cons]
    cases hhalted : s'.cpu.isHalted with
    | true =>
      -- nothing is executed after a BRK
      rcases rest.of_isHalted hhalted with ⟨rfl, rfl⟩
      rw [List.length_nil]
      omega
    | false =>
      have hnone := Processor.excess_of_running hhalted
      omega

/-- A run with a limit of ticks begins its last instruction before the limit, and the ticks of all
the others are over by then. -/
theorem Executes.ticks_of_last {bound : Nat} (h : engine.Executes s events t)
    (hadmits : (Limit.cycles bound).Admits 0 events) (hne : events ≠ []) :
    s.cpu.cycles.count.toNat + 2 * events.length < bound + 2 ∧
      t.cpu.cycles.count.toNat ≤ bound + 4 + t.cpu.excess := by
  rcases List.eq_nil_or_concat events with rfl | ⟨before, last, rfl⟩
  · exact absurd rfl hne
  · rw [List.concat_eq_append] at h hadmits ⊢
    rcases executes_append_iff.1 h with ⟨u, hbefore, hlast⟩
    have hunreached := (Limit.admits_append_iff.1 hadmits).2.1
    have hticks := hbefore.ticks.1
    have hone := hlast.ticks.2
    cases hlast with
    | step running decoded first rest =>
      have hu : ¬ bound ≤ u.cpu.cycles.count.toNat := of_decide_eq_false hunreached
      simp only [List.length_append, List.length_cons, List.length_nil] at hone ⊢
      omega

/-! ## What a run reports -/

/-- The result of a run that has executed `steps` instructions and left the processor `cpu`: an
outcome that says so, or else an opcode that has no row. -/
def Reports (steps : Nat) (cpu : Processor) :
    EStateM.Result Fault (Session σ) RunOutcome → Prop
  | .ok outcome s =>
    s.cpu = cpu ∧ outcome.steps = steps ∧ outcome.cycles = cpu.cycles ∧
      outcome.isHalted = cpu.isHalted
  | .error fault s => s.cpu = cpu ∧ ∃ opcode pc, fault = .unimplementedOpcode opcode pc

/-- A run reports what it has done, if there is room for the instruction at which it stops. -/
theorem Account.reports (account : engine.Account origin limit s events t)
    (room : t.cpu.isHalted = false → limit.isReached events.length t.cpu.cycles = false →
      t.cpu.cycles.count.toNat + 7 < UInt64.size) :
    Reports events.length t.cpu (engine.run origin limit s) := by
  have hends := account.ends
  generalize engine.run origin limit s = result at hends
  cases hends with
  | halted halted => exact ⟨rfl, rfl, rfl, halted.symm⟩
  | limitReached running reached => exact ⟨rfl, rfl, rfl, running.symm⟩
  | failed unreached failure =>
    rcases fault_of_step_eq_error failure with ⟨running, hfault⟩
    rcases hfault with ⟨-, rfl, rfl⟩ | ⟨-, hfull⟩
    · exact ⟨rfl, _, _, rfl⟩
    · have := room running unreached
      omega

/-- A run that comes to its limit has reached it. -/
theorem Account.reached (account : engine.Account origin limit s events t) {outcome : RunOutcome}
    (h : engine.run origin limit s = .ok outcome s') (hlimit : outcome.ending = .limitReached) :
    limit.isReached events.length t.cpu.cycles = true := by
  have hends := account.ends
  rw [h] at hends
  cases hends with
  | halted halted => cases hlimit
  | limitReached running reached => exact reached

/-! ## Bounded runs -/

/-- A run that is limited to `bound` ticks executes the instructions of the events and leaves the
session `t`. -/
structure WithinTicks (engine : Engine σ) (origin : UInt16) (bound : Nat) (s : Session σ)
    (events : List TraceEvent) (t : Session σ) : Prop where
  executes : engine.Executes (engine.start origin (.cycles bound) s) events t
  reports : Reports events.length t.cpu (engine.run origin (.cycles bound) s)
  length_le : events.length ≤ (bound - s.cpu.cycles.count.toNat + 1) / 2
  limitReached : ∀ outcome s', engine.run origin (.cycles bound) s = .ok outcome s' →
    outcome.ending = .limitReached →
      bound ≤ s'.cpu.cycles.count.toNat ∧
        (0 < outcome.steps → s'.cpu.cycles.count.toNat ≤ bound + 4)
  halted : ∀ outcome s', engine.run origin (.cycles bound) s = .ok outcome s' →
    outcome.ending = .halted → s'.cpu.cycles.count.toNat ≤ bound + 6

/-- A run that is limited to `count` steps executes the instructions of the events and leaves the
session `t`. -/
structure WithinSteps (engine : Engine σ) (origin : UInt16) (count : Nat) (s : Session σ)
    (events : List TraceEvent) (t : Session σ) : Prop where
  executes : engine.Executes (engine.start origin (.steps count) s) events t
  reports : Reports events.length t.cpu (engine.run origin (.steps count) s)
  length_le : events.length ≤ count
  limitReached : ∀ outcome s', engine.run origin (.steps count) s = .ok outcome s' →
    outcome.ending = .limitReached → outcome.steps = count
  ticks_ge : s.cpu.cycles.count.toNat + 2 * events.length ≤ t.cpu.cycles.count.toNat
  ticks_le : t.cpu.cycles.count.toNat ≤ s.cpu.cycles.count.toNat + 5 * events.length + 2

theorem exists_withinTicks (engine : Engine σ) (s : Session σ) (origin : UInt16)
    (running : s.cpu.isHalted = false) {bound : Nat} (hbound : bound + 7 ≤ UInt64.size) :
    ∃ events t, engine.WithinTicks origin bound s events t := by
  rcases engine.exists_account origin (.cycles bound) s running with ⟨events, t, account⟩
  have hreports := account.reports fun _ unreached => by
    have hlow : ¬ bound ≤ t.cpu.cycles.count.toNat := of_decide_eq_false unreached
    omega
  have hlast := account.executes.ticks_of_last account.admits
  have hstart : (engine.start origin (.cycles bound) s).cpu.cycles = s.cpu.cycles := rfl
  rw [hstart] at hlast
  refine ⟨events, t, account.executes, hreports, ?_, ?_, ?_⟩
  · cases events with
    | nil => exact Nat.zero_le _
    | cons event events =>
      have := (hlast (List.cons_ne_nil _ _)).1
      omega
  · intro outcome s' hrun hlimit
    have hreached := account.reached hrun hlimit
    rw [hrun] at hreports
    rcases hreports with ⟨hcpu, hsteps, -, hhalted⟩
    rw [hcpu]
    refine ⟨of_decide_eq_true hreached, ?_⟩
    intro hpositive
    -- the last instruction was no BRK
    have hrunning : t.cpu.isHalted = false := by
      rw [← hhalted, RunOutcome.isHalted, hlimit]
      rfl
    have hexcess := Processor.excess_of_running hrunning
    have hhigh := (hlast (List.ne_nil_of_length_pos (by omega))).2
    omega
  · intro outcome s' hrun hhalt
    rw [hrun] at hreports
    rcases hreports with ⟨hcpu, -, -, hhalted⟩
    rw [hcpu]
    have hexcess := t.cpu.excess_le_two
    cases events with
    | nil =>
      -- without an instruction the processor would be running still
      cases account.executes
      rw [RunOutcome.isHalted, hhalt] at hhalted
      rw [show (engine.start origin (.cycles bound) s).cpu.isHalted = s.cpu.isHalted from rfl,
        running] at hhalted
      cases hhalted
    | cons event events =>
      have hhigh := (hlast (List.cons_ne_nil _ _)).2
      omega

theorem exists_withinSteps (engine : Engine σ) (s : Session σ) (origin : UInt16)
    (running : s.cpu.isHalted = false) {count : Nat}
    (hroom : s.cpu.cycles.count.toNat + 7 * count < UInt64.size) :
    ∃ events t, engine.WithinSteps origin count s events t := by
  rcases engine.exists_account origin (.steps count) s running with ⟨events, t, account⟩
  have hlength := account.admits.length_le (Nat.zero_le count)
  rw [Nat.zero_add] at hlength
  have hticks := account.executes.ticks
  have hstart : (engine.start origin (.steps count) s).cpu.cycles = s.cpu.cycles := rfl
  rw [hstart] at hticks
  have hreports := account.reports fun hrunning unreached => by
    have hless : ¬ count ≤ events.length := of_decide_eq_false unreached
    have hexcess := Processor.excess_of_running hrunning
    omega
  have hexcess := t.cpu.excess_le_two
  refine ⟨events, t, account.executes, hreports, hlength, ?_, hticks.1, by omega⟩
  intro outcome s' hrun hlimit
  have hreached : count ≤ events.length := of_decide_eq_true (account.reached hrun hlimit)
  rw [hrun] at hreports
  rcases hreports with ⟨-, hsteps, -, -⟩
  omega

/-- Every run ends, and the tick count never overflows. A run that is limited to `bound` ticks
executes at most half as many instructions as ticks are left and overshoots the limit by at most
four ticks, or six if it halts. A run that is limited to `count` steps executes that many if it
comes to the limit, and each of them takes from two to five ticks, with two more for a BRK. -/
theorem run_bounded (engine : Engine σ) (s : Session σ) (origin : UInt16)
    (running : s.cpu.isHalted = false) :
    (∀ bound, bound + 7 ≤ UInt64.size →
        ∃ events t, engine.WithinTicks origin bound s events t) ∧
      ∀ count, s.cpu.cycles.count.toNat + 7 * count < UInt64.size →
        ∃ events t, engine.WithinSteps origin count s events t :=
  ⟨fun _ hbound => engine.exists_withinTicks s origin running hbound,
    fun _ hroom => engine.exists_withinSteps s origin running hroom⟩

/-- A processor whose tick count has room for one more BRK. -/
def lateSession : Session Unit where
  cpu := { Processor.powerUp 0x0200 with cycles := ⟨0xFFFFFFFFFFFFFFF8⟩ }
  seen := ()

theorem run_bounded_of_late :
    (lateSession.cpu.isHalted = false ∧ 0xFFFFFFFFFFFFFFF9 + 7 ≤ UInt64.size ∧
      lateSession.cpu.cycles.count.toNat + 7 * 1 < UInt64.size) ∧
      (∃ events t, ({} : Engine Unit).WithinTicks 0xFFFF 0xFFFFFFFFFFFFFFF9 lateSession events t) ∧
      ∃ events t, ({} : Engine Unit).WithinSteps 0xFFFF 1 lateSession events t := by
  have running : lateSession.cpu.isHalted = false := rfl
  have hbound : 0xFFFFFFFFFFFFFFF9 + 7 ≤ UInt64.size := by decide
  have hroom : lateSession.cpu.cycles.count.toNat + 7 * 1 < UInt64.size := by decide
  rcases run_bounded {} lateSession 0xFFFF running with ⟨hticks, hsteps⟩
  exact ⟨⟨running, hbound, hroom⟩, hticks _ hbound, hsteps _ hroom⟩

end Engine

end Cpu6502
