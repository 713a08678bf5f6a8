import Cpu6502.Proofs.Execution.Run

/-! # Who watches a run

What is seen of a processor does not reach back to it. If one engine sees of every event and of
every record what another engine sees of it through a view, then the two do the same to every
processor, and after a run the one has seen what the other has seen through the view.
-/

namespace Cpu6502

open Instruction

variable {σ τ α : Type}

/-- A session of which only a view of what has been seen is kept. -/
def Session.map (view : σ → τ) (s : Session σ) : Session τ where
  cpu := s.cpu
  seen := view s.seen

/-- A result of which only a view of what has been seen is kept. -/
def Watched.mapResult (view : σ → τ) :
    EStateM.Result Fault (Session σ) α → EStateM.Result Fault (Session τ) α
  | .ok value s => .ok value (s.map view)
  | .error fault s => .error fault (s.map view)

/-- What the one engine sees, looked at through the view, is what the other sees. -/
structure Engine.Reflects (engine : Engine σ) (engine' : Engine τ) (view : σ → τ) : Prop where
  notice : ∀ event seen, view (engine.notice event seen) = engine'.notice event (view seen)
  log : ∀ record seen, view (engine.log record seen) = engine'.log record (view seen)

namespace Engine.Reflects

variable {engine : Engine σ} {engine' : Engine τ} {view : σ → τ}

/-- Whatever an engine sees, it is reflected by seeing nothing. -/
theorem blind (engine : Engine σ) : engine.Reflects ({} : Engine Unit) fun _ => () :=
  ⟨fun _ _ => rfl, fun _ _ => rfl⟩

theorem note (h : engine.Reflects engine' view) (cpu : Processor) (i : Instruction) (seen : σ) :
    view (engine.note cpu i seen) = engine'.note cpu i (view seen) := by
  unfold Engine.note
  rw [h.log, h.notice]

theorem observe (h : engine.Reflects engine' view) (cpu : Processor) (i : Instruction) (seen : σ) :
    view (engine.observe cpu i seen) = engine'.observe cpu i (view seen) := by
  rw [observe_eq, observe_eq]
  split
  · rw [h.log, h.note]
  · exact h.note cpu i seen

theorem step (h : engine.Reflects engine' view) (s : Session σ) :
    Watched.mapResult view (engine.step s) = engine'.step (s.map view) := by
  cases running : s.cpu.isHalted with
  | true =>
    rw [engine.step_of_isHalted s running, engine'.step_of_isHalted (s.map view) running]
    rfl
  | false =>
    cases decoded : decode? (s.cpu.memory.get s.cpu.registers.pc) with
    | none =>
      rw [engine.step_of_decode?_eq_none s running decoded,
        engine'.step_of_decode?_eq_none (s.map view) running decoded]
      simp only [Watched.mapResult, Session.map, h.log]
    | some i =>
      rw [engine.step_eq_settle s running decoded, engine.settle_eq,
        engine'.step_eq_settle (s.map view) running decoded]
      show _ = engine'.settle s.cpu i
        ⟨(s.cpu.effect i).jump (s.cpu.successor i), engine'.note s.cpu i (view s.seen)⟩
      rw [engine'.settle_eq]
      cases s.cpu.cycles.addCost? (s.cpu.cost i) with
      | none => simp only [Watched.mapResult, Session.map, h.note]
      | some cycles => simp only [Watched.mapResult, Session.map, h.observe]

theorem stop (h : engine.Reflects engine' view) (steps : Nat) (s : Session σ) :
    Watched.mapResult view (engine.stop steps s) = engine'.stop steps (s.map view) := by
  rw [stop_apply, stop_apply]
  simp only [Watched.mapResult, Session.map, h.log]

theorem loop (h : engine.Reflects engine' view) (limit : Limit) (steps : Nat) (s : Session σ) :
    Watched.mapResult view (engine.loop limit steps s) =
      engine'.loop limit steps (s.map view) := by
  induction steps, s using engine.loop_induction limit with
  | turn steps s ih =>
    rw [loop_eq, loop_eq, ← h.step]
    show _ = if limit.isReached steps s.cpu.cycles then _ else _
    cases hreached : limit.isReached steps s.cpu.cycles with
    | true => exact h.stop steps s
    | false =>
      cases hstep : engine.step s with
      | error fault s' => rfl
      | ok report s' =>
        cases report with
        | halted => rfl
        | executed cost => exact ih cost s' hreached hstep

/-- A run does not depend on who watches it. -/
theorem run (h : engine.Reflects engine' view) (origin : UInt16) (limit : Limit) (s : Session σ) :
    Watched.mapResult view (engine.run origin limit s) =
      engine'.run origin limit (s.map view) := by
  cases running : s.cpu.isHalted with
  | true =>
    rw [engine.run_of_isHalted origin limit s running,
      engine'.run_of_isHalted origin limit (s.map view) running]
    rfl
  | false =>
    have hstart : (engine.start origin limit s).map view =
        engine'.start origin limit (s.map view) := by
      simp only [Session.map, start, h.log]
    rw [engine.run_of_running origin limit s running,
      engine'.run_of_running origin limit (s.map view) running, h.loop, hstart]

end Engine.Reflects

end Cpu6502
