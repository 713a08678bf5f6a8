import Cpu6502.Proofs.Execution.Splitting

/-! # Operations

Whoever has a processor and an engine can load programs, write and fetch single bytes, execute
instructions one by one or in runs, reset the processor, and set the registers and the flags, which
are open to everyone. Nothing else can be done.

An operation gives a reply or a fault, and leaves a session either way. `Engine.Change` says once
what that session can be; invariants of all operations are read off it. The exception is an
operation that exhausts the tick count, which is no fault that is given back: everything ends there,
and `Engine.Returns` says that this does not happen.
-/

namespace Cpu6502

open Instruction

variable {σ τ α β : Type}

/-- What can be done with a processor. -/
inductive Operation where
  | load (program : List UInt8) (origin : UInt16)
  | write (address : UInt32) (value : UInt8)
  | fetch
  | step
  | run (origin : UInt16) (limit : Limit)
  | reset (origin : UInt16)
  /-- Sets the registers and the flags. -/
  | edit (registers : Registers) (flags : Flags)

namespace Operation

/-- Holds of the operation that lets a halted processor run again. -/
def isReset : Operation → Bool
  | reset _ => true
  | _ => false

/-- Holds of the operations that execute instructions. -/
def executes : Operation → Bool
  | step | run _ _ => true
  | _ => false

/-- Holds of the operation that sets the registers and the flags from outside. -/
def isEdit : Operation → Bool
  | edit _ _ => true
  | _ => false

end Operation

/-- What an operation gives back. -/
inductive Reply where
  | done
  | byte (value : UInt8)
  | step (report : Step)
  | run (outcome : RunOutcome)

namespace Watched

/-- The session that a computation leaves. -/
def left : EStateM.Result Fault (Session σ) α → Session σ
  | .ok _ s => s
  | .error _ s => s

/-- The tick count was exhausted. -/
def Overflows (result : EStateM.Result Fault (Session σ) α) : Prop :=
  ∃ s, result = .error .tickOverflow s

theorem map_of_ok (f : α → β) {x : Watched σ α} {s s' : Session σ} {a : α} (h : x s = .ok a s') :
    (f <$> x) s = .ok (f a) s' := by
  show EStateM.map f x s = _
  unfold EStateM.map
  rw [h]

theorem left_map (f : α → β) (x : Watched σ α) (s : Session σ) :
    left ((f <$> x) s) = left (x s) := by
  show left (EStateM.map f x s) = _
  unfold EStateM.map
  cases x s with
  | ok value s' => rfl
  | error fault s' => rfl

theorem overflows_map (f : α → β) (x : Watched σ α) (s : Session σ) :
    Overflows ((f <$> x) s) ↔ Overflows (x s) := by
  show Overflows (EStateM.map f x s) ↔ _
  unfold EStateM.map Overflows
  cases x s with
  | ok value s' => simp
  | error fault s' => simp

theorem mapResult_map (view : σ → τ) (f : α → β) {x : Watched σ α} {y : Watched τ α}
    {s : Session σ} (h : mapResult view (x s) = y (s.map view)) :
    mapResult view ((f <$> x) s) = (f <$> y) (s.map view) := by
  show mapResult view (EStateM.map f x s) = EStateM.map f y (s.map view)
  unfold EStateM.map
  rw [← h]
  cases x s with
  | ok value s' => rfl
  | error fault s' => rfl

theorem mapResult_left (view : σ → τ) (result : EStateM.Result Fault (Session σ) α) :
    left (mapResult view result) = (left result).map view := by
  cases result with
  | ok value s => rfl
  | error fault s => rfl

theorem overflows_mapResult (view : σ → τ) (result : EStateM.Result Fault (Session σ) α) :
    Overflows (mapResult view result) ↔ Overflows result := by
  unfold Overflows mapResult
  cases result with
  | ok value s => simp
  | error fault s => simp

end Watched

namespace Engine

/-- Sets the registers and the flags. -/
def edit (registers : Registers) (flags : Flags) : Watched σ Unit :=
  modify fun s => { s with cpu := { s.cpu with registers, flags } }

/-- Carries out an operation. -/
def perform (engine : Engine σ) : Operation → Watched σ Reply
  | .load program origin => (fun _ => .done) <$> engine.load program origin
  | .write address value => (fun _ => .done) <$> (Exec.write address value).watched
  | .fetch => .byte <$> Exec.fetch.watched
  | .step => .step <$> engine.step
  | .run origin limit => .run <$> engine.run origin limit
  | .reset origin => (fun _ => .done) <$> engine.reset origin
  | .edit registers flags => (fun _ => .done) <$> edit registers flags

/-- The session that an operation leaves, whatever it gives back. -/
def left (engine : Engine σ) (s : Session σ) (op : Operation) : Session σ :=
  Watched.left (engine.perform op s)

/-- The session that several operations leave, one after the other. -/
def leftAll (engine : Engine σ) (s : Session σ) : List Operation → Session σ
  | [] => s
  | op :: ops => engine.leftAll (engine.left s op) ops

/-- None of the operations exhausts the tick count, so each of them returns. -/
def Returns (engine : Engine σ) (s : Session σ) : List Operation → Prop
  | [] => True
  | op :: ops => ¬Watched.Overflows (engine.perform op s) ∧ engine.Returns (engine.left s op) ops

/-- What has been seen after more records. -/
def noted (engine : Engine σ) (records : List Record) (seen : σ) : σ :=
  records.foldl (fun seen record => engine.log record seen) seen

/-- What an operation that returns can do to a session. -/
inductive Change (engine : Engine σ) (s : Session σ) : Operation → Session σ → Prop where
  /-- Only the memory and the program counter are touched. -/
  | kept {op : Operation} (quiet : op.executes = false) (memory : Memory) (target : UInt16)
      (records : List Record) :
      Change engine s op ⟨{ s.cpu.jump target with memory }, engine.noted records s.seen⟩
  /-- Instructions are executed from some address on. -/
  | executed {op : Operation} (active : op.executes = true) (target : UInt16)
      (records records' : List Record) {events : List TraceEvent} {t : Session σ}
      (executes : engine.Executes ⟨s.cpu.jump target, engine.noted records s.seen⟩ events t) :
      Change engine s op ⟨t.cpu, engine.noted records' t.seen⟩
  /-- The processor is back in its power-up state. -/
  | reset (origin : UInt16) (records : List Record) :
      Change engine s (.reset origin) ⟨.powerUp origin, engine.noted records s.seen⟩
  | edited (registers : Registers) (flags : Flags) :
      Change engine s (.edit registers flags) ⟨{ s.cpu with registers, flags }, s.seen⟩

variable {engine : Engine σ} {s s' : Session σ} {op : Operation}

theorem left_of_ok {reply : Reply} (h : engine.perform op s = .ok reply s') :
    engine.left s op = s' ∧ ¬Watched.Overflows (engine.perform op s) := by
  unfold left Watched.Overflows
  rw [h]
  exact ⟨rfl, by simp⟩

/-! ## What each operation does -/

theorem load_apply (engine : Engine σ) (program : List UInt8) (origin : UInt16) (s : Session σ) :
    engine.load program origin s =
      match s.cpu.load program origin with
      | .ok cpu => .ok () ⟨cpu, engine.log (.loaded program.length origin) s.seen⟩
      | .error cause => .error (.memory cause) s := by
  show (match s.cpu.load program origin with
    | .ok cpu => _
    | .error cause => _ : Watched σ Unit) s = _
  cases s.cpu.load program origin with
  | ok cpu => rfl
  | error cause => rfl

theorem load_eq_ok {cpu cpu' : Processor} {program : List UInt8} {origin : UInt16}
    (h : cpu.load program origin = .ok cpu') : ∃ memory, cpu' = { cpu with memory } := by
  unfold Processor.load at h
  cases hload : cpu.memory.load origin.toUInt32 program with
  | error cause =>
    rw [hload] at h
    cases h
  | ok memory =>
    rw [hload] at h
    cases h
    exact ⟨memory, rfl⟩

/-- A program that fits is stored from the origin on. -/
theorem load_of_fits (engine : Engine σ) {program : List UInt8} {origin : UInt16}
    (fits : origin.toNat + program.length ≤ 65536) (s : Session σ) :
    engine.load program origin s =
      .ok () ⟨{ s.cpu with memory := s.cpu.memory.store origin.toNat program },
        engine.log (.loaded program.length origin) s.seen⟩ := by
  have hload : s.cpu.load program origin =
      .ok { s.cpu with memory := s.cpu.memory.store origin.toNat program } := by
    unfold Processor.load Memory.load
    rw [UInt16.toNat_toUInt32, if_pos fits]
    rfl
  rw [load_apply, hload]

/-- A byte is written into a cell, unless there is no such cell. -/
theorem write_watched (address : UInt32) (value : UInt8) (s : Session σ) :
    ((Exec.write address value).watched : Watched σ Unit) s =
      match cell? address with
      | .ok cell => .ok () { s with cpu := { s.cpu with memory := s.cpu.memory.set cell value } }
      | .error cause => .error (.memory cause) s := by
  rw [Exec.watched_apply]
  have hwrite : Exec.write address value s.cpu =
      match cell? address with
      | .ok cell => .ok () { s.cpu with memory := s.cpu.memory.set cell value }
      | .error cause => .error (.memory cause) s.cpu := by
    show EStateM.bind (Exec.cell address) _ s.cpu = _
    unfold EStateM.bind Exec.cell
    cases cell? address with
    | ok cell => rfl
    | error cause => rfl
  rw [hwrite]
  cases cell? address with
  | ok cell => rfl
  | error cause => rfl

theorem fetch_watched (s : Session σ) :
    (Exec.fetch.watched : Watched σ UInt8) s =
      .ok (s.cpu.memory.get s.cpu.registers.pc)
        { s with cpu := s.cpu.jump (s.cpu.registers.pc + 1) } := by
  rw [Exec.watched_apply, Exec.fetch_apply]

/-- A step that does not exhaust the tick count executes one instruction or none. -/
theorem executes_of_step (h : ¬Watched.Overflows (engine.step s)) :
    ∃ events t records, engine.Executes s events t ∧
      Watched.left (engine.step s) = ⟨t.cpu, engine.noted records t.seen⟩ := by
  cases running : s.cpu.isHalted with
  | true =>
    rw [engine.step_of_isHalted s running]
    exact ⟨[], s, [], .done s, rfl⟩
  | false =>
    cases hstep : engine.step s with
    | ok report s' =>
      obtain ⟨i, decoded, -⟩ := executed_of_step_eq_ok running hstep
      exact ⟨[.capture s.cpu i], s', [], .step running decoded hstep (.done s'), rfl⟩
    | error fault s' =>
      obtain ⟨-, ⟨-, -, rfl⟩ | ⟨rfl, -⟩⟩ := fault_of_step_eq_error hstep
      · exact ⟨[], s, [_], .done s, rfl⟩
      · exact absurd ⟨s', hstep⟩ h

/-- A run that does not exhaust the tick count executes instructions, unless the processor is
halted. -/
theorem executes_of_run {origin : UInt16} {limit : Limit}
    (h : ¬Watched.Overflows (engine.run origin limit s)) :
    ∃ target records events t records',
      engine.Executes ⟨s.cpu.jump target, engine.noted records s.seen⟩ events t ∧
        Watched.left (engine.run origin limit s) = ⟨t.cpu, engine.noted records' t.seen⟩ := by
  cases running : s.cpu.isHalted with
  | true =>
    rw [engine.run_of_isHalted origin limit s running]
    exact ⟨s.cpu.registers.pc, [], [], s, [], .done s, rfl⟩
  | false =>
    obtain ⟨events, t, account⟩ := engine.exists_account origin limit s running
    have hends := account.ends
    generalize engine.run origin limit s = result at h hends
    refine ⟨origin, [.runStarted origin limit], events, t, ?_⟩
    cases hends with
    | halted => exact ⟨[], account.executes, rfl⟩
    | limitReached => exact ⟨[.limitReached _], account.executes, rfl⟩
    | @failed fault s' unreached failure =>
      obtain ⟨-, ⟨-, -, rfl⟩ | ⟨rfl, -⟩⟩ := fault_of_step_eq_error failure
      · exact ⟨[_], account.executes, rfl⟩
      · exact absurd ⟨s', rfl⟩ h

/-- Every operation that returns does what `Change` says. -/
theorem change_of_returns (h : ¬Watched.Overflows (engine.perform op s)) :
    engine.Change s op (engine.left s op) := by
  unfold left perform at *
  cases op with
  | load program origin =>
    rw [Watched.left_map, load_apply]
    cases hload : s.cpu.load program origin with
    | error cause => exact .kept rfl s.cpu.memory s.cpu.registers.pc []
    | ok cpu =>
      obtain ⟨memory, rfl⟩ := load_eq_ok hload
      exact .kept rfl memory s.cpu.registers.pc [_]
  | write address value =>
    rw [Watched.left_map, write_watched]
    cases cell? address with
    | error cause => exact .kept rfl s.cpu.memory s.cpu.registers.pc []
    | ok cell => exact .kept rfl (s.cpu.memory.set cell value) s.cpu.registers.pc []
  | fetch =>
    rw [Watched.left_map, fetch_watched]
    exact .kept rfl s.cpu.memory (s.cpu.registers.pc + 1) []
  | step =>
    rw [Watched.overflows_map] at h
    rw [Watched.left_map]
    obtain ⟨events, t, records', hexecutes, hleft⟩ := executes_of_step h
    rw [hleft]
    exact .executed rfl s.cpu.registers.pc [] records' hexecutes
  | run origin limit =>
    rw [Watched.overflows_map] at h
    rw [Watched.left_map]
    obtain ⟨target, records, events, t, records', hexecutes, hleft⟩ := executes_of_run h
    rw [hleft]
    exact .executed rfl target records records' hexecutes
  | reset origin => exact .reset origin [_]
  | edit registers flags => exact .edited registers flags

/-- Only instructions exhaust the tick count, and a halted processor executes none. -/
theorem running_of_overflows (h : Watched.Overflows (engine.perform op s)) :
    s.cpu.isHalted = false ∧ op.executes = true := by
  unfold perform at h
  cases op with
  | load program origin =>
    rw [Watched.overflows_map, load_apply] at h
    obtain ⟨s', h⟩ := h
    split at h
    · cases h
    · cases h
  | write address value =>
    rw [Watched.overflows_map, write_watched] at h
    obtain ⟨s', h⟩ := h
    split at h
    · cases h
    · cases h
  | fetch =>
    rw [Watched.overflows_map, fetch_watched] at h
    obtain ⟨s', h⟩ := h
    cases h
  | step =>
    rw [Watched.overflows_map] at h
    obtain ⟨s', h⟩ := h
    exact ⟨(fault_of_step_eq_error h).1, rfl⟩
  | run origin limit =>
    rw [Watched.overflows_map] at h
    cases running : s.cpu.isHalted with
    | false => exact ⟨rfl, rfl⟩
    | true =>
      rw [engine.run_of_isHalted origin limit s running] at h
      obtain ⟨s', h⟩ := h
      cases h
  | reset origin =>
    obtain ⟨s', h⟩ := h
    cases h
  | edit registers flags =>
    obtain ⟨s', h⟩ := h
    cases h

/-! ## Who watches the operations -/

namespace Reflects

variable {engine' : Engine τ} {view : σ → τ}

/-- An operation does not depend on who watches it. -/
theorem perform (h : engine.Reflects engine' view) (op : Operation) (s : Session σ) :
    Watched.mapResult view (engine.perform op s) = engine'.perform op (s.map view) := by
  cases op with
  | load program origin =>
    apply Watched.mapResult_map
    rw [load_apply, load_apply]
    show _ = match s.cpu.load program origin with
      | .ok cpu => _
      | .error cause => _
    cases s.cpu.load program origin with
    | error cause => rfl
    | ok cpu => simp only [Watched.mapResult, Session.map, h.log]
  | write address value =>
    apply Watched.mapResult_map
    rw [write_watched, write_watched]
    cases cell? address with
    | error cause => rfl
    | ok cell => rfl
  | fetch =>
    apply Watched.mapResult_map
    rw [fetch_watched, fetch_watched]
    rfl
  | step =>
    apply Watched.mapResult_map
    exact h.step s
  | run origin limit =>
    apply Watched.mapResult_map
    exact h.run origin limit s
  | reset origin =>
    apply Watched.mapResult_map
    show EStateM.Result.ok () (Session.map view ⟨_, engine.log (.reset origin) s.seen⟩) =
      .ok () ⟨_, engine'.log (.reset origin) (view s.seen)⟩
    rw [← h.log]
    rfl
  | edit registers flags => rfl

/-- Whoever watches, operations leave the same processor, and return or not alike. -/
theorem leftAll (h : engine.Reflects engine' view) (s : Session σ) (ops : List Operation) :
    (engine.leftAll s ops).map view = engine'.leftAll (s.map view) ops ∧
      (engine.Returns s ops ↔ engine'.Returns (s.map view) ops) := by
  induction ops generalizing s with
  | nil => exact ⟨rfl, Iff.rfl⟩
  | cons op ops ih =>
    have hop := h.perform op s
    have hleft : (engine.left s op).map view = engine'.left (s.map view) op := by
      unfold Engine.left
      rw [← hop, Watched.mapResult_left]
    obtain ⟨hrest, hreturns⟩ := ih (engine.left s op)
    rw [hleft] at hrest hreturns
    refine ⟨hrest, ?_⟩
    unfold Returns
    rw [← hop, Watched.overflows_mapResult, hreturns]

end Reflects

/-- Operations leave the processor that they leave when the events are listed. -/
theorem leftAll_recorder (engine : Engine σ) (s : Session σ) (ops : List Operation) :
    (engine.leftAll s ops).cpu = (recorder.leftAll ⟨s.cpu, []⟩ ops).cpu ∧
      (engine.Returns s ops ↔ recorder.Returns ⟨s.cpu, []⟩ ops) := by
  -- both are reflected by the engine that sees nothing
  obtain ⟨hblind, hreturns⟩ := (Reflects.blind engine).leftAll s ops
  obtain ⟨hblind', hreturns'⟩ := (Reflects.blind recorder).leftAll ⟨s.cpu, []⟩ ops
  have hsame := hblind.trans hblind'.symm
  exact ⟨congrArg Session.cpu hsame, hreturns.trans hreturns'.symm⟩

/-! ## What instructions preserve -/

/-- What one instruction preserves is preserved by instructions that are executed in sequence. -/
theorem Executes.invariant {P : Processor → Prop} {events : List TraceEvent} {t : Session σ}
    (h : engine.Executes s events t)
    (hnext : ∀ cpu i, cpu.isHalted = false → decode? (cpu.memory.get cpu.registers.pc) = some i →
      P cpu → P (cpu.next i))
    (hs : P s.cpu) : P t.cpu := by
  induction h with
  | done s => exact hs
  | step running decoded first rest ih =>
    obtain ⟨i, decoded, -, rfl, -⟩ := executed_of_step_eq_ok running first
    exact ih (hnext _ i running decoded hs)

end Engine

end Cpu6502
