import Cpu6502.Processor.Query
import Cpu6502.Proofs.Execution.Operation

/-! # A reset erases all history

After a reset nothing can tell what a processor has been through. Whatever is asked of it from then
on, in however many requests, it answers as a fresh processor does: with the same replies and the
same faults, and with the same events and records for whoever watches.

* `Engine.converse`: the answers to several requests, and the session that they leave.
* `Engine.Reflects.converse`: answers do not depend on who watches.
* `Engine.reset_erases_history`: two processors with unrelated pasts, and a fresh one.
-/

namespace Cpu6502

variable {σ τ α : Type}

/-! ## Requests -/

/-- What can be asked of a processor. Other than by an operation, it does not change. -/
inductive Request where
  | operation (op : Operation)
  | read (address : UInt32)
  | query (path : String)
  /-- Asks for all bytes of memory. -/
  | dump
  /-- Asks for the form in which the processor is shown. -/
  | inspect

/-- What a request is answered with, if not with a fault. -/
inductive Answer where
  | reply (reply : Reply)
  | byte (value : UInt8)
  | value (value : Option Value)
  | bytes (bytes : Array UInt8)
  | text (text : String)

/-- What a computation gives back. -/
def Watched.outcome : EStateM.Result Fault (Session σ) α → Except Fault α
  | .ok value _ => .ok value
  | .error fault _ => .error fault

theorem Watched.outcome_mapResult (view : σ → τ) (result : EStateM.Result Fault (Session σ) α) :
    outcome (mapResult view result) = outcome result := by
  cases result with
  | ok value s => rfl
  | error fault s => rfl

theorem Watched.mapResult_watched (view : σ → τ) (x : Exec α) (s : Session σ) :
    mapResult view (x.watched s) = x.watched (s.map view) := by
  have hcpu : (s.map view).cpu = s.cpu := rfl
  rw [Exec.watched_apply, Exec.watched_apply, hcpu]
  cases x s.cpu with
  | ok value cpu => rfl
  | error fault cpu => rfl

namespace Engine

/-- Answers a request. -/
def answer (engine : Engine σ) : Request → Watched σ Answer
  | .operation op => .reply <$> engine.perform op
  | .read address => .byte <$> (Exec.read address).watched
  | .query path => (fun cpu => .value (cpu.query path)) <$> Watched.cpu
  | .dump => (fun cpu => .bytes cpu.memory.bytes) <$> Watched.cpu
  | .inspect => (fun cpu => .text cpu.inspect) <$> Watched.cpu

/-- Answers several requests, one after the other, whether or not some are answered with a fault. -/
def converse (engine : Engine σ) (s : Session σ) :
    List Request → List (Except Fault Answer) × Session σ
  | [] => ([], s)
  | request :: requests =>
    let result := engine.answer request s
    let (answers, t) := engine.converse (Watched.left result) requests
    (Watched.outcome result :: answers, t)

/-! ## Who watches the answers -/

namespace Reflects

variable {engine : Engine σ} {engine' : Engine τ} {view : σ → τ}

/-- An answer does not depend on who watches. -/
theorem answer (h : engine.Reflects engine' view) (request : Request) (s : Session σ) :
    Watched.mapResult view (engine.answer request s) = engine'.answer request (s.map view) := by
  cases request with
  | operation op =>
    apply Watched.mapResult_map
    exact h.perform op s
  | read address =>
    apply Watched.mapResult_map
    exact Watched.mapResult_watched view (Exec.read address) s
  | query path => rfl
  | dump => rfl
  | inspect => rfl

theorem converse (h : engine.Reflects engine' view) (requests : List Request) (s : Session σ) :
    let (answers, t) := engine.converse s requests
    engine'.converse (s.map view) requests = (answers, t.map view) := by
  induction requests generalizing s with
  | nil => rfl
  | cons request requests ih =>
    have hanswer := h.answer request s
    have hrest := ih (Watched.left (engine.answer request s))
    unfold Engine.converse
    dsimp only at hrest ⊢
    rw [← hanswer, Watched.mapResult_left, Watched.outcome_mapResult, hrest]

end Reflects

/-- What an engine is given to see. -/
inductive Notice where
  | event (event : TraceEvent)
  | record (record : Record)

/-- What has been seen after one more notice. -/
def take (engine : Engine σ) (seen : σ) : Notice → σ
  | .event event => engine.notice event seen
  | .record record => engine.log record seen

/-- The engine that lists all notices. -/
def listener : Engine (List Notice) where
  hook := some fun event notices => notices ++ [.event event]
  log record notices := notices ++ [.record record]

/-- Every engine sees what it makes of the notices. -/
theorem reflects_listener (engine : Engine σ) (seen : σ) :
    listener.Reflects engine fun notices => notices.foldl engine.take seen := by
  constructor
  · intro event notices
    exact List.foldl_append
  · intro record notices
    exact List.foldl_append

/-- After a reset, all requests are answered by any two processors alike, whatever has been done
with each of them before and whoever watches it, and they leave the same processor. The engines are
given the same notices. A fresh processor, of which only the program counter is set, answers so as
well. -/
theorem reset_erases_history (engine : Engine σ) (engine' : Engine τ) (s : Session σ)
    (s' : Session τ) (origin : UInt16) (requests : List Request) :
    let t := engine.left s (.reset origin)
    let t' := engine'.left s' (.reset origin)
    let fresh : Session (List Notice) := ⟨(Processor.powerUp 0).jump origin, []⟩
    ∃ answers cpu notices,
      listener.converse fresh requests = (answers, ⟨cpu, notices⟩) ∧
        engine.converse t requests = (answers, ⟨cpu, notices.foldl engine.take t.seen⟩) ∧
        engine'.converse t' requests = (answers, ⟨cpu, notices.foldl engine'.take t'.seen⟩) := by
  intro t t' fresh
  -- nothing of what was before a reset is left in the processor
  have ht : fresh.map (fun notices => notices.foldl engine.take t.seen) = t := rfl
  have ht' : fresh.map (fun notices => notices.foldl engine'.take t'.seen) = t' := rfl
  have hengine := (reflects_listener engine t.seen).converse requests fresh
  have hengine' := (reflects_listener engine' t'.seen).converse requests fresh
  rw [ht] at hengine
  rw [ht'] at hengine'
  exact ⟨_, _, _, rfl, hengine, hengine'⟩

end Engine

end Cpu6502
