import Cpu6502.Proofs.Execution.Operation
import Cpu6502.Proofs.Execution.Tracing

/-! # Halting and the tick count

A processor is halted by executing a BRK and by nothing else, and only a reset lets it run again:
whatever else is done with a halted processor, it stays halted and its tick count stays as it is.
On a running processor the tick count climbs with the instructions that are executed, by two ticks
at least with each, and with nothing else.
-/

namespace Cpu6502

open Instruction

variable {σ : Type}

/-- From one tick count to another by instructions: the events show the tick count before each of
them, and each of them adds two ticks at least. -/
def Climbs (start : Nat) : List TraceEvent → Nat → Prop
  | [], last => last = start
  | event :: events, last =>
    event.cycles.count.toNat = start ∧ ∃ next, start + 2 ≤ next ∧ Climbs next events last

theorem Climbs.append {start middle last : Nat} {events events' : List TraceEvent}
    (h : Climbs start events middle) (h' : Climbs middle events' last) :
    Climbs start (events ++ events') last := by
  induction events generalizing start with
  | nil =>
    cases h
    exact h'
  | cons event events ih =>
    obtain ⟨hevent, next, hnext, hrest⟩ := h
    exact ⟨hevent, next, hnext, ih hrest⟩

theorem Climbs.add_le {start last : Nat} {events : List TraceEvent}
    (h : Climbs start events last) : start + 2 * events.length ≤ last := by
  induction events generalizing start with
  | nil =>
    cases h
    exact Nat.le_refl _
  | cons event events ih =>
    obtain ⟨-, next, hnext, hrest⟩ := h
    have hle := ih hrest
    rw [List.length_cons]
    omega

namespace Engine

/-- The operation halts the processor: it is a step that executes a BRK, or a run whose last
instruction is a BRK. -/
inductive HaltsBy (engine : Engine σ) (s : Session σ) : Operation → Prop where
  | step {t : Session σ} (opcode : s.cpu.memory.get s.cpu.registers.pc = 0x00)
      (halts : engine.step s = .ok .halted t) : HaltsBy engine s .step
  | run {origin : UInt16} {limit : Limit} {events : List TraceEvent} {u t : Session σ}
      (executes : engine.Executes (engine.start origin limit s) events u)
      (running : u.cpu.isHalted = false)
      (opcode : u.cpu.memory.get u.cpu.registers.pc = 0x00)
      (halts : engine.step u = .ok .halted t) (left_eq : engine.left s (.run origin limit) = t) :
      HaltsBy engine s (.run origin limit)

variable {engine : Engine σ} {s t : Session σ} {op : Operation} {events : List TraceEvent}

/-! ## A BRK halts -/

/-- The row of the BRK. -/
def breakRow : Instruction := ⟨0x00, .brk, .implied, 7⟩

theorem step_of_brk (engine : Engine σ) (s : Session σ) (running : s.cpu.isHalted = false)
    (hopcode : s.cpu.memory.get s.cpu.registers.pc = 0x00)
    (room : s.cpu.cycles.count.toNat + 7 < UInt64.size) :
    engine.step s = .ok .halted ⟨s.cpu.next breakRow, engine.observe s.cpu breakRow s.seen⟩ := by
  have hdecoded : decode? (s.cpu.memory.get s.cpu.registers.pc) = some breakRow := by
    rw [hopcode]
    rfl
  exact engine.step_of_decode?_eq_some s running hdecoded room

theorem run_of_brk (engine : Engine σ) (origin : UInt16) {limit : Limit} (s : Session σ)
    (running : s.cpu.isHalted = false) (hopcode : s.cpu.memory.get origin = 0x00)
    (room : s.cpu.cycles.count.toNat + 7 < UInt64.size)
    (hlimit : limit.isReached 0 s.cpu.cycles = false) :
    ∃ t, engine.run origin limit s = .ok ⟨.halted, 1, t.cpu.cycles⟩ t ∧ t.cpu.isHalted = true := by
  have hstep := engine.step_of_brk (engine.start origin limit s) running hopcode room
  have hunreached : limit.isReached 0 (engine.start origin limit s).cpu.cycles = false := hlimit
  rw [engine.run_of_running origin limit s running, loop_eq, hunreached, hstep]
  exact ⟨_, rfl, rfl⟩

/-! ## Only a BRK halts -/

theorem brk_of_isHalted {report : Step} (running : s.cpu.isHalted = false)
    (h : engine.step s = .ok report t) (halted : t.cpu.isHalted = true) :
    s.cpu.memory.get s.cpu.registers.pc = 0x00 ∧ report = .halted := by
  have hrow : ∀ i ∈ table, i.mnemonic = .brk → i.opcode = 0x00 := by decide
  obtain ⟨i, decoded, rfl, rfl, -⟩ := executed_of_step_eq_ok running h
  obtain ⟨hi, hopcode⟩ := decode?_eq_some decoded
  have hbrk : i.mnemonic = .brk := by
    apply Decidable.of_not_not
    intro hother
    rw [Processor.isHalted_next_of_ne_brk running hother] at halted
    cases halted
  refine ⟨hopcode.symm.trans (hrow i hi hbrk), ?_⟩
  unfold Processor.report
  rw [if_pos hbrk]

/-- A step that fails does not halt the processor. -/
theorem running_of_step_eq_error {fault : Fault} (h : engine.step s = .error fault t) :
    t.cpu.isHalted = false := by
  have running := (fault_of_step_eq_error h).1
  cases decoded : decode? (s.cpu.memory.get s.cpu.registers.pc) with
  | none =>
    rw [engine.step_of_decode?_eq_none s running decoded] at h
    cases h
    exact running
  | some i =>
    rw [engine.step_eq_settle s running decoded, settle_eq] at h
    split at h
    · cases h
    · cases h
      rw [Processor.isHalted_eq_false_iff] at running ⊢
      exact (s.cpu.effect_state i).trans running

/-- Of instructions that halt a processor the last one is a BRK. -/
theorem Executes.exists_brk (h : engine.Executes s events t) (running : s.cpu.isHalted = false)
    (halted : t.cpu.isHalted = true) :
    ∃ events' u, engine.Executes s events' u ∧ u.cpu.isHalted = false ∧
      u.cpu.memory.get u.cpu.registers.pc = 0x00 ∧ engine.step u = .ok .halted t := by
  induction h with
  | done s =>
    rw [running] at halted
    cases halted
  | @step s s' t i report events running' decoded first rest ih =>
    cases hhalted : s'.cpu.isHalted with
    | true =>
      -- nothing is executed after it
      obtain ⟨-, rfl⟩ := rest.of_isHalted hhalted
      obtain ⟨hopcode, rfl⟩ := brk_of_isHalted running first halted
      exact ⟨[], s, .done s, running, hopcode, first⟩
    | false =>
      obtain ⟨events', u, hexecutes, hrest⟩ := ih hhalted halted
      exact ⟨.capture s.cpu i :: events', u, .step running decoded first hexecutes, hrest⟩

/-- Only operations that execute instructions halt a processor. -/
theorem executes_of_isHalted (running : s.cpu.isHalted = false)
    (halted : (engine.left s op).cpu.isHalted = true) : op.executes = true := by
  cases hexecutes : op.executes with
  | true => rfl
  | false =>
    have hreturns : ¬Watched.Overflows (engine.perform op s) := by
      intro hoverflows
      rw [(running_of_overflows hoverflows).2] at hexecutes
      cases hexecutes
    have hchange := change_of_returns hreturns
    generalize engine.left s op = t at halted hchange
    cases hchange with
    | kept =>
      have hsame := running.symm.trans halted
      cases hsame
    | executed active =>
      rw [active] at hexecutes
      cases hexecutes
    | reset => cases halted
    | edited =>
      have hsame := running.symm.trans halted
      cases hsame

/-- An operation that halts a processor executes a BRK. -/
theorem haltsBy_of_isHalted (running : s.cpu.isHalted = false)
    (halted : (engine.left s op).cpu.isHalted = true) : engine.HaltsBy s op := by
  have hexecutes := executes_of_isHalted running halted
  cases op with
  | step =>
    unfold left perform at halted
    rw [Watched.left_map] at halted
    cases hstep : engine.step s with
    | error fault t =>
      rw [hstep] at halted
      have hrunning := running_of_step_eq_error hstep
      exact absurd halted (by simp [Watched.left, hrunning])
    | ok report t =>
      rw [hstep] at halted
      obtain ⟨hopcode, rfl⟩ := brk_of_isHalted running hstep halted
      exact .step hopcode hstep
  | run origin limit =>
    have hleft : engine.left s (.run origin limit) = Watched.left (engine.run origin limit s) :=
      Watched.left_map _ _ _
    rw [hleft] at halted
    obtain ⟨events, t, account⟩ := engine.exists_account origin limit s running
    have hends := account.ends
    generalize engine.run origin limit s = result at halted hends hleft
    cases hends with
    | halted hhalted =>
      obtain ⟨events', u, hexecutes, hrunning, hopcode, hstep⟩ :=
        account.executes.exists_brk running hhalted
      exact .run hexecutes hrunning hopcode hstep hleft
    | limitReached hrunning reached =>
      have hsame := hrunning.symm.trans halted
      cases hsame
    | failed unreached failure =>
      have hsame := (running_of_step_eq_error failure).symm.trans halted
      cases hsame
  | load | write | fetch | reset | edit => cases hexecutes

/-! ## Halted is final -/

/-- An operation that is no reset leaves a halted processor halted. -/
theorem halted_left (engine : Engine σ) (halted : s.cpu.isHalted = true)
    (hop : op.isReset = false) :
    (engine.left s op).cpu.isHalted = true ∧ (engine.left s op).cpu.cycles = s.cpu.cycles := by
  have hreturns : ¬Watched.Overflows (engine.perform op s) := by
    intro hoverflows
    rw [(running_of_overflows hoverflows).1] at halted
    cases halted
  have hchange := change_of_returns hreturns
  generalize engine.left s op = t at hchange
  cases hchange with
  | kept => exact ⟨halted, rfl⟩
  | executed active target records records' executes =>
    obtain ⟨-, rfl⟩ := executes.of_isHalted halted
    exact ⟨halted, rfl⟩
  | reset => cases hop
  | edited => exact ⟨halted, rfl⟩

theorem halted_leftAll (engine : Engine σ) {ops : List Operation}
    (halted : s.cpu.isHalted = true) (hops : ∀ op ∈ ops, op.isReset = false) :
    (engine.leftAll s ops).cpu.isHalted = true ∧
      (engine.leftAll s ops).cpu.cycles = s.cpu.cycles := by
  induction ops generalizing s with
  | nil => exact ⟨halted, rfl⟩
  | cons op ops ih =>
    obtain ⟨hop, hrest⟩ := List.forall_mem_cons.1 hops
    obtain ⟨hhalted, hcycles⟩ := halted_left engine halted hop
    obtain ⟨hlast, hsame⟩ := ih hhalted hrest
    exact ⟨hlast, hsame.trans hcycles⟩

/-! ## The tick count -/

theorem Executes.climbs (h : engine.Executes s events t) :
    Climbs s.cpu.cycles.count.toNat events t.cpu.cycles.count.toNat := by
  induction h with
  | done s => rfl
  | @step s s' t i report events running decoded first rest ih =>
    obtain ⟨i', decoded', -, -, hticks⟩ := executed_of_step_eq_ok running first
    have hcost := s.cpu.two_le_cost (decode?_eq_some decoded').1
    exact ⟨rfl, s'.cpu.cycles.count.toNat, by omega, ih⟩

/-- The list of events takes no account of records. -/
theorem noted_recorder (records : List Record) (seen : List TraceEvent) :
    recorder.noted records seen = seen := by
  induction records with
  | nil => rfl
  | cons record records ih => exact ih

/-- Operations that return, and are no resets, add the events of the instructions that they
execute. -/
theorem climbs_leftAll {s : Session (List TraceEvent)} {ops : List Operation}
    (hops : ∀ op ∈ ops, op.isReset = false) (returns : recorder.Returns s ops) :
    ∃ events, (recorder.leftAll s ops).seen = s.seen ++ events ∧
      Climbs s.cpu.cycles.count.toNat events
        (recorder.leftAll s ops).cpu.cycles.count.toNat := by
  induction ops generalizing s with
  | nil => exact ⟨[], (List.append_nil _).symm, rfl⟩
  | cons op ops ih =>
    obtain ⟨hop, hrest⟩ := List.forall_mem_cons.1 hops
    obtain ⟨hreturns, returns⟩ := returns
    have hfirst : ∃ events, (recorder.left s op).seen = s.seen ++ events ∧
        Climbs s.cpu.cycles.count.toNat events
          (recorder.left s op).cpu.cycles.count.toNat := by
      have hchange := change_of_returns hreturns
      generalize recorder.left s op = t at hchange
      cases hchange with
      | kept quiet memory target records =>
        refine ⟨[], ?_, rfl⟩
        rw [noted_recorder, List.append_nil]
      | @executed _ active target records records' events t executes =>
        refine ⟨events, ?_, executes.climbs⟩
        rw [noted_recorder, seen_of_executes executes, noted_recorder]
      | reset => cases hop
      | edited registers flags => exact ⟨[], (List.append_nil _).symm, rfl⟩
    obtain ⟨events, hseen, hclimbs⟩ := hfirst
    obtain ⟨events', hseen', hclimbs'⟩ := ih hrest returns
    refine ⟨events ++ events', ?_, hclimbs.append hclimbs'⟩
    rw [leftAll, hseen', hseen, List.append_assoc]

/-- Halted is final until the next reset. Whatever else is done with a halted processor, it stays
halted with the same tick count; then every step and every run reports so and changes nothing, and
no one sees anything of it. A running processor is halted by a BRK that is executed, and by nothing
else. Between resets the tick count climbs with the instructions that are executed. -/
theorem halted_until_reset (engine : Engine σ) (s : Session σ) :
    (∀ ops : List Operation, s.cpu.isHalted = true → (∀ op ∈ ops, op.isReset = false) →
      let t := engine.leftAll s ops
      t.cpu.isHalted = true ∧ t.cpu.cycles = s.cpu.cycles ∧ engine.step t = .ok .halted t ∧
        ∀ origin limit, engine.run origin limit t = .ok ⟨.halted, 0, t.cpu.cycles⟩ t) ∧
      (∀ op, s.cpu.isHalted = false → (engine.left s op).cpu.isHalted = true →
        engine.HaltsBy s op) ∧
      ∀ ops : List Operation, (∀ op ∈ ops, op.isReset = false) → engine.Returns s ops →
        let t := recorder.leftAll ⟨s.cpu, []⟩ ops
        (engine.leftAll s ops).cpu = t.cpu ∧
          Climbs s.cpu.cycles.count.toNat t.seen t.cpu.cycles.count.toNat ∧
          s.cpu.cycles.count.toNat + 2 * t.seen.length ≤ t.cpu.cycles.count.toNat := by
  refine ⟨?_, fun op => haltsBy_of_isHalted, ?_⟩
  · intro ops halted hops
    obtain ⟨hhalted, hcycles⟩ := halted_leftAll engine halted hops
    refine ⟨hhalted, hcycles, engine.step_of_isHalted _ hhalted, ?_⟩
    intro origin limit
    exact engine.run_of_isHalted origin limit _ hhalted
  · intro ops hops returns
    obtain ⟨hcpu, hreturns⟩ := engine.leftAll_recorder s ops
    obtain ⟨events, hseen, hclimbs⟩ := climbs_leftAll hops (hreturns.1 returns)
    rw [List.nil_append] at hseen
    rw [← hseen] at hclimbs
    exact ⟨hcpu, hclimbs, hclimbs.add_le⟩

/-- A processor that has just been switched on, about to execute a BRK. -/
def fresh : Session Unit := ⟨.powerUp 0, ()⟩

/-- A processor that is halted, although B is clear. -/
def stopped : Session Unit := ⟨{ Processor.powerUp 0 with state := .halted }, ()⟩

/-- Clears the flags of a processor and tries to run it. -/
def attempts : List Operation :=
  [.edit (.powerUp 7) .clear, .run 0 (.steps 5)]

theorem halted_until_reset_of_break :
    (({} : Engine Unit).leftAll stopped attempts).cpu.isHalted = true ∧
      ({} : Engine Unit).HaltsBy fresh .step ∧
      fresh.cpu.cycles.count.toNat + 2 * (recorder.leftAll ⟨fresh.cpu, []⟩ [.step]).seen.length ≤
        (recorder.leftAll ⟨fresh.cpu, []⟩ [.step]).cpu.cycles.count.toNat := by
  have hopcode : fresh.cpu.memory.get fresh.cpu.registers.pc = 0x00 := Memory.get_zeroed 0
  have hperform : ({} : Engine Unit).perform .step fresh =
      .ok (.step .halted) ⟨fresh.cpu.next breakRow, ()⟩ :=
    Watched.map_of_ok Reply.step (step_of_brk {} fresh rfl hopcode (by decide))
  obtain ⟨hleft, hreturns⟩ := left_of_ok hperform
  have hhalted : (({} : Engine Unit).left fresh .step).cpu.isHalted = true := by
    rw [hleft]
    exact fresh.cpu.isHalted_next_of_brk rfl
  have hkept : ∀ op ∈ attempts, op.isReset = false := by
    simp [attempts, Operation.isReset]
  obtain ⟨hfinal, -, -⟩ := halted_until_reset ({} : Engine Unit) stopped
  obtain ⟨-, honly, hclimbs⟩ := halted_until_reset ({} : Engine Unit) fresh
  have hgrows := hclimbs [.step] (by simp [Operation.isReset]) ⟨hreturns, trivial⟩
  exact ⟨(hfinal attempts rfl hkept).1, honly .step rfl hhalted, hgrows.2.2⟩

end Engine

end Cpu6502
