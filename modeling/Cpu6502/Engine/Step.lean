import Cpu6502.Engine.Log
import Cpu6502.Engine.TraceEvent
import Cpu6502.Instruction.Semantics

/-!
# The engine

An engine executes instructions on a processor and lets itself be watched: a hook, if there is one,
is given the trace event of every instruction before it is executed, and the log is given records
of what happens. Both fold what they are given into an observation, whose type is theirs to choose.
They see the processor only through events and records, so they cannot affect it.

* `Engine.step_of_isHalted`: a halted processor stays as it is.
* `Engine.step_of_decode?_eq_none`: an opcode without a row is a fault that changes nothing.
-/

namespace Cpu6502

/-- A processor together with what has been observed of it. -/
structure Session (σ : Type) where
  cpu : Processor
  seen : σ

/-- A computation on a processor under observation. -/
abbrev Watched (σ : Type) := EStateM Fault (Session σ)

/-- What watches the processor. -/
structure Engine (σ : Type) where
  /-- Called with the event of every instruction that is about to be executed. -/
  hook : Option (TraceEvent → σ → σ) := none
  /-- Called with every log record. -/
  log : Record → σ → σ := fun _ seen => seen

/-- What became of a step. -/
inductive Step where
  /-- An instruction was executed and cost this many ticks. -/
  | executed (cycles : UInt32)
  /-- The processor is halted, by this step or an earlier one. -/
  | halted
  deriving DecidableEq, Repr

variable {σ : Type}

/-- A computation on the processor of a session leaves the observations alone. -/
def Exec.watched {α : Type} (x : Exec α) : Watched σ α := fun session =>
  match session with
  | ⟨cpu, seen⟩ =>
    match x cpu with
    | .ok value cpu => .ok value ⟨cpu, seen⟩
    | .error fault cpu => .error fault ⟨cpu, seen⟩

theorem Exec.watched_apply {α : Type} (x : Exec α) (session : Session σ) :
    (x.watched : Watched σ α) session =
      match x session.cpu with
      | .ok value cpu => .ok value { session with cpu }
      | .error fault cpu => .error fault { session with cpu } := rfl

instance : MonadLift Exec (Watched σ) := ⟨Exec.watched⟩

/-- The processor of the session. -/
def Watched.cpu : Watched σ Processor :=
  return (← get).cpu

namespace Engine

/-- Writes a record to the log. -/
def record (engine : Engine σ) (record : Record) : Watched σ Unit :=
  modify fun session => { session with seen := engine.log record session.seen }

/-- Gives an event to the hook. -/
def announce (engine : Engine σ) (event : TraceEvent) : Watched σ Unit :=
  match engine.hook with
  | some hook => modify fun session => { session with seen := hook event session.seen }
  | none => pure ()

/-- Resets the processor. -/
def reset (engine : Engine σ) (origin : UInt16) : Watched σ Unit := do
  modify fun session => { session with cpu := session.cpu.reset origin }
  engine.record (.reset origin)

/-- Loads a program into memory. -/
def load (engine : Engine σ) (program : List UInt8) (origin : UInt16) : Watched σ Unit := do
  match (← Watched.cpu).load program origin with
  | .ok cpu =>
    modify fun session => { session with cpu }
    engine.record (.loaded program.length origin)
  | .error cause => throw (.memory cause)

/-- Executes one instruction, unless the processor is halted. An opcode without a row in the table
is a fault, and is found before anything changes. -/
def step (engine : Engine σ) : Watched σ Step := do
  if (← Watched.cpu).isHalted then
    return .halted
  let pc := (← Watched.cpu).registers.pc
  let opcode ← Exec.read pc.toUInt32
  match Instruction.decode? opcode with
  | none =>
    engine.record (.unimplementedOpcode opcode pc)
    throw (.unimplementedOpcode opcode pc)
  | some i =>
    engine.announce (.capture (← Watched.cpu) i)
    let (operand, outcome) ← i.execute
    let after ← Watched.cpu
    engine.record (.executed pc i.mnemonic operand after.registers.a after.flags)
    match outcome with
    | .proceed penalty =>
      Exec.charge (i.cycles + penalty)
      return .executed (i.cycles + penalty)
    | .halt =>
      Exec.charge i.cycles
      Exec.halt
      engine.record (.halted pc (← Watched.cpu).cycles)
      return .halted

/-! ## Steps that execute nothing -/

theorem step_of_isHalted (engine : Engine σ) (session : Session σ) (h : session.cpu.isHalted) :
    engine.step session = .ok .halted session := by
  show (if session.cpu.isHalted then _ else _ : Watched σ Step) session = _
  rw [if_pos h]
  rfl

theorem step_of_decode?_eq_none (engine : Engine σ) (session : Session σ)
    (running : session.cpu.isHalted = false)
    (h : Instruction.decode? (session.cpu.memory.get session.cpu.registers.pc) = none) :
    let pc := session.cpu.registers.pc
    let opcode := session.cpu.memory.get pc
    engine.step session = .error (.unimplementedOpcode opcode pc)
      { session with seen := engine.log (.unimplementedOpcode opcode pc) session.seen } := by
  show (if session.cpu.isHalted then _ else _ : Watched σ Step) session = _
  rw [if_neg (by simp [running])]
  show EStateM.bind (Exec.read session.cpu.registers.pc.toUInt32).watched _ session = _
  rw [EStateM.bind, Exec.watched_apply, Exec.read_toUInt32]
  simp only [h]
  rfl

/-- The form in which an engine is shown for inspection. -/
def inspect (engine : Engine σ) : String :=
  s!"Engine \x7b trace: {engine.hook.isSome} \x7d"

end Engine

end Cpu6502
