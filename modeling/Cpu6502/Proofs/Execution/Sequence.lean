import Cpu6502.Proofs.Execution.Transition

/-! # Instructions in sequence

`Engine.Executes engine s events s'` says that from the session `s` the engine executes, one step
after another, the instructions that `events` tell of, and leaves the session `s'`. Every one of
these steps begins on a running processor, so only the last can be a halt.
-/

namespace Cpu6502

open Instruction

namespace TraceEvent

/-- The number of bytes of the instruction. -/
def size (event : TraceEvent) : Nat :=
  ((decode? event.opcode).map Instruction.size).getD 1

/-- Holds of a branch that was taken. -/
def isTaken (event : TraceEvent) : Bool :=
  match event.mnemonic with
  | .bcc => !event.flags.c
  | .bcs => event.flags.c
  | _ => false

theorem size_capture (cpu : Processor) {i : Instruction} (hi : i ∈ table) :
    (capture cpu i).size = i.size := by
  unfold size capture
  simp only [decode?_opcode hi, Option.map_some, Option.getD_some]

theorem isTaken_capture (cpu : Processor) (i : Instruction) :
    (capture cpu i).isTaken = cpu.branches i := rfl

end TraceEvent

variable {σ : Type}

/-- The engine executes the instructions of the events in order. -/
inductive Engine.Executes (engine : Engine σ) :
    Session σ → List TraceEvent → Session σ → Prop where
  | done (s : Session σ) : Executes engine s [] s
  | step {s s' s'' : Session σ} {i : Instruction} {report : Step} {events : List TraceEvent}
      (running : s.cpu.isHalted = false)
      (decoded : decode? (s.cpu.memory.get s.cpu.registers.pc) = some i)
      (first : engine.step s = .ok report s')
      (rest : Executes engine s' events s'') :
      Executes engine s (.capture s.cpu i :: events) s''

/-- Instructions that are executed one after another may be parted anywhere. -/
theorem Engine.executes_append_iff {engine : Engine σ} {s t : Session σ}
    {events events' : List TraceEvent} :
    engine.Executes s (events ++ events') t ↔
      ∃ u, engine.Executes s events u ∧ engine.Executes u events' t := by
  constructor
  · intro h
    induction events generalizing s with
    | nil => exact ⟨s, .done s, h⟩
    | cons event events ih =>
      cases h with
      | step running decoded first rest =>
        rcases ih rest with ⟨u, hbefore, hafter⟩
        exact ⟨u, .step running decoded first hbefore, hafter⟩
  · rintro ⟨u, hbefore, hafter⟩
    induction hbefore with
    | done s => exact hafter
    | step running decoded first rest ih => exact .step running decoded first (ih hafter)

/-- The ticks that pass from one state to another. -/
def Processor.ticksUntil (cpu cpu' : Processor) : Int :=
  cpu'.cycles.count.toNat - cpu.cycles.count.toNat

namespace Processor

variable {i : Instruction}

/-- Only page zero can change. -/
theorem next_get (cpu : Processor) (i : Instruction) {address : UInt16}
    (haddress : 0x100 ≤ address.toNat) :
    (cpu.next i).memory.get address = cpu.memory.get address := by
  -- the operand byte cannot name a cell above page zero
  have hcell : cpu.operandCell ≠ address := by
    intro heq
    have hlt := cpu.operandByte.toNat_lt
    have hvalue : cpu.operandCell.toNat = cpu.operandByte.toNat := UInt8.toNat_toUInt16 _
    rw [heq] at hvalue
    omega
  rw [next_memory]
  unfold effect
  cases i.mnemonic with
  | sta | inc => simp only [Memory.get_set, if_neg hcell]
  | _ => rfl

/-- The room for many instructions leaves room for one, and after it for the others. -/
theorem room_next {cpu : Processor} (hi : i ∈ table) {count : Nat}
    (room : cpu.cycles.count.toNat + 7 * (count + 1) < UInt64.size) :
    (cpu.next i).cycles.count.toNat + 7 * count < UInt64.size := by
  have hcost := cpu.cost_le_seven hi
  rw [next_cycles_toNat hi (by omega)]
  omega

theorem ticksUntil_next {cpu : Processor} (hi : i ∈ table)
    (room : cpu.cycles.count.toNat + 7 < UInt64.size) :
    cpu.ticksUntil (cpu.next i) = (cpu.cost i).toNat := by
  unfold ticksUntil
  rw [next_cycles_toNat hi room]
  omega

theorem ticksUntil_eq_zero {cpu cpu' : Processor} (h : cpu'.cycles = cpu.cycles) :
    cpu.ticksUntil cpu' = 0 := by
  unfold ticksUntil
  rw [h]
  exact Int.sub_self _

theorem ticksUntil_add (cpu cpu' cpu'' : Processor) :
    cpu.ticksUntil cpu' + cpu'.ticksUntil cpu'' = cpu.ticksUntil cpu'' := by
  unfold ticksUntil
  omega

end Processor

end Cpu6502
