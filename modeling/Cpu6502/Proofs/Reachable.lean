import Cpu6502.Proofs.CommandLine
import Cpu6502.Proofs.Execution.Arithmetic
import Cpu6502.Proofs.Execution.Frame
import Cpu6502.Proofs.Execution.Halting

/-! # States that can be reached

No instruction changes X, Y, the stack pointer or the flags D and I, a result is never both negative
and zero, and the BRK that sets B also halts the processor. So as long as nobody sets registers and
flags from outside, every state that can be reached from power-up or from a reset is `Regular`. The
invariant holds initially (`Regular.powerUp`), one instruction keeps it (`Regular.next`), and every
operation keeps it (`Regular.change`), whether it gives a reply or a fault.
-/

namespace Cpu6502

open Instruction

namespace Processor

/-- What holds of every state that is reached without setting registers or flags from outside. -/
structure Regular (cpu : Processor) : Prop where
  cells : cpu.memory.bytes.size = 65536
  x : cpu.registers.x = 0
  y : cpu.registers.y = 0
  sp : cpu.registers.sp = 0xFD
  d : cpu.flags.d = false
  i : cpu.flags.i = false
  /-- N and Z are not both set. -/
  n_z : ¬(cpu.flags.n = true ∧ cpu.flags.z = true)
  /-- B is set exactly when the processor is halted. -/
  b : cpu.flags.b = cpu.isHalted

/-- The bits of the packed flags that are known in a regular state. -/
structure RegularStatus (cpu : Processor) : Prop where
  bit_five : cpu.status.toNat.testBit 5 = true
  bit_four : cpu.status.toNat.testBit 4 = cpu.isHalted
  bit_three : cpu.status.toNat.testBit 3 = false
  bit_two : cpu.status.toNat.testBit 2 = false

end Processor

/-- Each of the flags B, D and I has its bit, and bit 5 is always set. -/
theorem Flags.testBit_toByte (f : Flags) :
    f.toByte.toNat.testBit 5 = true ∧ f.toByte.toNat.testBit 4 = f.b ∧
      f.toByte.toNat.testBit 3 = f.d ∧ f.toByte.toNat.testBit 2 = f.i := by
  have hall : ∀ n v b d i z c : Bool,
      let p := (toByte ⟨n, v, b, d, i, z, c⟩).toNat
      p.testBit 5 = true ∧ p.testBit 4 = b ∧ p.testBit 3 = d ∧ p.testBit 2 = i := by
    decide +kernel
  exact hall f.n f.v f.b f.d f.i f.z f.c

/-- A result is not both negative and zero. -/
theorem Flags.withResult_n_z (f : Flags) (result : UInt8) :
    ¬((f.withResult result).n = true ∧ (f.withResult result).z = true) := by
  rintro ⟨hn, hz⟩
  rw [withResult_z, decide_eq_true_eq] at hz
  rw [withResult_n, hz] at hn
  exact absurd hn (by decide)

theorem Memory.size_bytes (memory : Memory) : memory.bytes.size = 65536 :=
  memory.cells.size_toArray

namespace Processor.Regular

variable {cpu : Processor} {i : Instruction}

theorem status (h : cpu.Regular) : cpu.RegularStatus := by
  obtain ⟨hfive, hfour, hthree, htwo⟩ := cpu.flags.testBit_toByte
  constructor
  · exact hfive
  · exact hfour.trans h.b
  · exact hthree.trans h.d
  · exact htwo.trans h.i

theorem powerUp (origin : UInt16) : (Processor.powerUp origin).Regular := by
  constructor
  · exact Memory.zeroed.size_bytes
  · rfl
  · rfl
  · rfl
  · rfl
  · rfl
  · exact fun h => Bool.noConfusion h.1
  · rfl

/-- Other bytes in memory and another program counter make no difference. -/
theorem with_memory (h : cpu.Regular) (memory : Memory) (target : UInt16) :
    Regular { cpu.jump target with memory } :=
  ⟨memory.size_bytes, h.x, h.y, h.sp, h.d, h.i, h.n_z, h.b⟩

/-- One instruction. -/
theorem next (h : cpu.Regular) (running : cpu.isHalted = false) : (cpu.next i).Regular := by
  constructor
  · exact Memory.size_bytes _
  · rw [next_x, h.x]
  · rw [next_y, h.y]
  · rw [next_sp, h.sp]
  · rw [next_d, h.d]
  · rw [next_i, h.i]
  · rw [next_flags]
    unfold effect
    cases i.mnemonic with
    | brk | nop | clc | sec | sta | bcc | bcs => exact h.n_z
    | lda | adc | cmp | inc => exact Flags.withResult_n_z _ _
  · by_cases hbrk : i.mnemonic = .brk
    · rw [cpu.isHalted_next_of_brk hbrk, next_flags]
      unfold effect
      rw [hbrk]
    · have hb : (cpu.effect i).flags.b = cpu.flags.b := Decidable.of_not_not (mt effect_b hbrk)
      rw [isHalted_next_of_ne_brk running hbrk, next_flags, hb, h.b, running]

/-- One operation, if it is not an edit and returns. -/
theorem change {σ : Type} {engine : Engine σ} {s s' : Session σ} {op : Operation}
    (h : s.cpu.Regular) (closed : op.isEdit = false) (hchange : engine.Change s op s') :
    s'.cpu.Regular := by
  cases hchange with
  | kept quiet memory target records => exact h.with_memory memory target
  | executed active target records records' executes =>
    refine executes.invariant ?_ (h.with_memory s.cpu.memory target)
    intro cpu i running _ hcpu
    exact hcpu.next running
  | reset origin records => exact .powerUp origin
  | edited registers flags => cases closed

/-- Any number of operations. -/
theorem leftAll {σ : Type} {engine : Engine σ} {s : Session σ} {ops : List Operation}
    (h : s.cpu.Regular) (closed : ∀ op ∈ ops, op.isEdit = false) (returns : engine.Returns s ops) :
    (engine.leftAll s ops).cpu.Regular := by
  induction ops generalizing s with
  | nil => exact h
  | cons op ops ih =>
    obtain ⟨hop, hops⟩ := List.forall_mem_cons.1 closed
    obtain ⟨hreturns, hrest⟩ := returns
    exact ih (h.change hop (Engine.change_of_returns hreturns)) hops hrest

end Processor.Regular

namespace CommandLine.Options

variable {options : Options} {files : FileSystem} {s t : Session Output} {exit : Nat}

/-- The processor that a run leaves is regular. -/
theorem regular_of_command (hlist : options.list = false)
    (h : options.command files s = .ok exit t) : t.cpu.Regular := by
  obtain ⟨program, source, cpu, outcome, values, u, -, hload, hrun, -, rfl, -⟩ :=
    (command_eq_ok_iff hlist).1 h
  have hloaded : cpu.Regular := by
    obtain ⟨memory, rfl⟩ := Engine.load_eq_ok hload
    exact (Processor.Regular.powerUp options.origin).with_memory memory options.origin
  have hperform : options.engine.perform (.run options.origin options.limit)
      (options.ready program source cpu s.seen) = .ok (.run outcome) u :=
    Watched.map_of_ok Reply.run hrun
  obtain ⟨hleft, hreturns⟩ := Engine.left_of_ok hperform
  have hchange := Engine.change_of_returns hreturns
  rw [hleft] at hchange
  have hregular : u.cpu.Regular := Processor.Regular.change hloaded rfl hchange
  exact hregular

/-- The report of that processor is printed last. -/
theorem report_of_command (hlist : options.list = false)
    (h : options.command files s = .ok exit t) :
    ∃ before outcome values,
      t.seen.stdout.toList = before ++ options.summary t.cpu outcome values := by
  obtain ⟨program, source, cpu, outcome, values, u, -, -, -, -, rfl, -⟩ :=
    (command_eq_ok_iff hlist).1 h
  exact ⟨u.seen.stdout.toList, outcome, values, Output.toList_stdout_printAll _ _⟩

end CommandLine.Options

open CommandLine in
/-- Every state that is reached from power-up or a reset is regular, if no one sets registers or
flags from outside: after any operations, whatever each of them gives back. In particular the state
that the command reports after a run is regular. -/
theorem reached_regular :
    (∀ {σ : Type} (engine : Engine σ) (s : Session σ) (ops : List Operation),
      (s.cpu = .powerUp 0 ∨ ∃ cpu : Processor, ∃ origin, s.cpu = cpu.reset origin) →
        (∀ op ∈ ops, op.isEdit = false) → engine.Returns s ops →
          let cpu := (engine.leftAll s ops).cpu
          cpu.Regular ∧ cpu.RegularStatus) ∧
      ∀ (options : Options) (files : FileSystem) (exit : Nat) (t : Session Output),
        options.list = false → options.command files ⟨.powerUp 0, {}⟩ = .ok exit t →
          t.cpu.Regular ∧ t.cpu.RegularStatus ∧ ∃ before outcome values,
            t.seen.stdout.toList = before ++ options.summary t.cpu outcome values := by
  constructor
  · intro σ engine s ops start closed returns
    have hstart : s.cpu.Regular := by
      rcases start with hcpu | ⟨cpu, origin, hcpu⟩
      · rw [hcpu]
        exact .powerUp 0
      · rw [hcpu]
        exact .powerUp origin
    have hregular := hstart.leftAll closed returns
    exact ⟨hregular, hregular.status⟩
  · intro options files exit t hlist h
    have hregular := Options.regular_of_command hlist h
    exact ⟨hregular, hregular.status, Options.report_of_command hlist h⟩

/-- The machine code of a BRK, given as text. -/
def breakOptions : CommandLine.Options where
  program := "00"

/-- The processor into which it has been loaded. -/
def breakLoaded : Processor :=
  { Processor.powerUp 0 with memory := Memory.zeroed.store 0 [0x00] }

open CommandLine in
/-- In memory that holds zeros, a BRK stands everywhere. -/
theorem reached_regular_of_break :
    (({} : Engine Unit).leftAll Engine.fresh [.step]).cpu.RegularStatus ∧
      ∃ t, breakOptions.command (fun _ => .absent .notFound) ⟨.powerUp 0, {}⟩ = .ok 0 t ∧
        t.cpu.RegularStatus := by
  obtain ⟨hreached, hreported⟩ := reached_regular
  constructor
  · have hopcode : Engine.fresh.cpu.memory.get Engine.fresh.cpu.registers.pc = 0x00 :=
      Memory.get_zeroed 0
    have hperform : ({} : Engine Unit).perform .step Engine.fresh =
        .ok (.step .halted) ⟨Engine.fresh.cpu.next Engine.breakRow, ()⟩ :=
      Watched.map_of_ok Reply.step (Engine.step_of_brk {} Engine.fresh rfl hopcode (by decide))
    have hreturns := (Engine.left_of_ok hperform).2
    exact (hreached {} Engine.fresh [.step] (Or.inl rfl) (by simp [Operation.isEdit])
      ⟨hreturns, trivial⟩).2
  · have hlist : breakOptions.list = false := rfl
    have hprogram : loadProgram (fun _ => .absent .notFound) breakOptions.program
        breakOptions.asm = .ok ([0x00], .hex) := rfl
    have hload : (Processor.powerUp breakOptions.origin).load [0x00] breakOptions.origin =
        .ok breakLoaded := rfl
    have hopcode : breakLoaded.memory.get breakOptions.origin = 0x00 := by
      show (Memory.zeroed.store 0 [0x00]).get 0 = 0x00
      rw [Memory.get_store]
      simp
    have hrun : ∃ u, breakOptions.engine.run breakOptions.origin breakOptions.limit
        (breakOptions.ready [0x00] .hex breakLoaded {}) = .ok ⟨.halted, 1, u.cpu.cycles⟩ u ∧
          u.cpu.isHalted = true :=
      Engine.run_of_brk _ _ _ rfl hopcode (by decide) rfl
    obtain ⟨u, hrun, -⟩ := hrun
    have hcommand : breakOptions.command (fun _ => .absent .notFound) ⟨.powerUp 0, {}⟩ =
        .ok 0 ⟨u.cpu, u.seen.printAll
          (breakOptions.summary u.cpu ⟨.halted, 1, u.cpu.cycles⟩ [])⟩ := by
      rw [Options.command_eq_ok_iff hlist]
      exact ⟨[0x00], .hex, breakLoaded, ⟨.halted, 1, u.cpu.cycles⟩, [], u, hprogram, hload, hrun,
        rfl, rfl, rfl⟩
    exact ⟨_, hcommand, (hreported _ _ _ _ hlist hcommand).2.1⟩

end Cpu6502
