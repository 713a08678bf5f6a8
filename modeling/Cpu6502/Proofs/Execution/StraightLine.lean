import Cpu6502.Proofs.Execution.Frame
import Cpu6502.Proofs.Execution.Limits

/-! # Programs without branches

A program in which nothing branches or halts runs as its instructions stand there, each of them
once. The engine fetches and decodes what was loaded, although the program writes to memory
meanwhile, as long as it does not write to itself (`Engine.exists_performs`). That is certain of a
program above page zero, where no write goes. So a run comes to the same as applying what each
mnemonic does, in order, to the operands that the program was written with
(`Engine.runs_straight`), and its length and its cost can be told without it.
-/

namespace Cpu6502

open Instruction

/-- Holds of the mnemonics after which the next instruction is always executed. -/
def Mnemonic.isStraight : Mnemonic → Bool
  | .brk | .bcc | .bcs => false
  | .nop | .clc | .sec | .lda | .sta | .adc | .cmp | .inc => true

/-- The processor with another program counter and another tick count. -/
def Processor.movedTo (cpu : Processor) (pc : UInt16) (cycles : Ticks) : Processor :=
  { cpu.jump pc with cycles }

namespace Encoded

/-- The operand that the operand byte stands for. -/
def given (e : Encoded) : Operand :=
  match e.row.mode with
  | .implied => .none
  | .immediate => .literal e.operand
  | .zeroPage => .address e.operand.toUInt16
  | .relative => .offset e.operand.toInt8

/-- The ticks that instructions take which are executed once each and without penalties. -/
def baseCost : List Encoded → Nat
  | [] => 0
  | e :: program => e.row.cycles.toNat + baseCost program

/-- Applies the mnemonic to the operand, without fetching or charging anything. -/
def perform (e : Encoded) : Exec Outcome :=
  e.row.mnemonic.perform e.given

/-- The byte that the instruction works on, if the memory is as it is given. -/
def valueIn (e : Encoded) (memory : Memory) : UInt8 :=
  if e.row.mode = .zeroPage then memory.get e.operand.toUInt16 else e.operand

/-- Holds of the cell that the instruction writes to. -/
def Stores (e : Encoded) (cell : UInt16) : Prop :=
  (e.row.mnemonic = .sta ∨ e.row.mnemonic = .inc) ∧ cell = e.operand.toUInt16

end Encoded

/-! ## One instruction -/

section

variable {m : Mnemonic} {operand : Operand} {cpu cpu' : Processor} {outcome : Outcome}

/-- What a mnemonic does other than branching depends on neither the program counter nor the tick
count, and leaves them as they are. -/
theorem Mnemonic.perform_movedTo (straight : m.isStraight = true)
    (h : m.perform operand cpu = .ok outcome cpu') (pc : UInt16) (cycles : Ticks) :
    m.perform operand (cpu.movedTo pc cycles) = .ok outcome (cpu'.movedTo pc cycles) := by
  cases m with
  | brk | bcc | bcs => cases straight
  | nop | clc | sec =>
    cases h
    rfl
  | lda | adc | cmp =>
    cases operand with
    | none | offset => cases h
    | literal value =>
      cases h
      rfl
    | address cell =>
      have hread : ∀ cpu : Processor,
          (Operand.address cell).value cpu = .ok (cpu.memory.get cell) cpu :=
        Exec.read_toUInt32 cell
      cases (Exec.bind_of_ok (hread cpu)).symm.trans h
      exact Exec.bind_of_ok (hread _)
  | sta =>
    cases operand with
    | none | literal | offset => cases h
    | address cell =>
      have hwrite := Exec.write_toUInt32 cell cpu.registers.a
      cases (Exec.bind_of_ok (hwrite cpu)).symm.trans h
      exact Exec.bind_of_ok (hwrite _)
  | inc =>
    cases operand with
    | none | literal | offset => cases h
    | address cell =>
      have hread := Exec.read_toUInt32 cell
      have hwrite := Exec.write_toUInt32 cell (cpu.memory.get cell + 1)
      cases (Exec.bind_of_ok (hwrite cpu)).symm.trans ((Exec.bind_of_ok (hread cpu)).symm.trans h)
      exact (Exec.bind_of_ok (hread _)).trans (Exec.bind_of_ok (hwrite _))

end

section

variable {i : Instruction} {e : Encoded} {cpu : Processor}

/-- An instruction that is straight leads to the one after it and costs its base cost. -/
theorem Processor.straight (cpu : Processor) (h : i.mnemonic.isStraight = true) :
    cpu.successor i = cpu.following i ∧ cpu.cost i = i.cycles ∧ cpu.ending i = .proceed 0 ∧
      i.mnemonic ≠ .brk := by
  unfold cost ending penalty successor branches
  cases hm : i.mnemonic with
  | brk | bcc | bcs =>
    rw [hm] at h
    cases h
  | _ => exact ⟨rfl, UInt32.add_zero i.cycles, rfl, nofun⟩

/-- The processor decodes an instruction that its memory holds. -/
theorem Encoded.decode_of_holds (h : Holds cpu.memory.bytes cpu.registers.pc e.bytes) :
    decode? (cpu.memory.get cpu.registers.pc) = some e.row := by
  have hzero : cpu.registers.pc + UInt16.ofNat 0 = cpu.registers.pc := UInt16.add_zero _
  have hopcode := h.byteAt e.first_bytes
  rw [Memory.byteAt_bytes, hzero] at hopcode
  rw [hopcode, decode?_opcode e.mem_table]

theorem Encoded.operandByte_of_holds (h : Holds cpu.memory.bytes cpu.registers.pc e.bytes)
    (hmode : e.row.mode ≠ .implied) : cpu.operandByte = e.operand := by
  have hoperand := h.byteAt (e.second_bytes hmode)
  rw [Memory.byteAt_bytes] at hoperand
  exact hoperand

/-- The byte that a processor works on is the one that the instruction was written for. -/
theorem Encoded.operandValue_of_holds (h : Holds cpu.memory.bytes cpu.registers.pc e.bytes)
    (hmode : e.row.mode ≠ .implied) : cpu.operandValue e.row = e.valueIn cpu.memory := by
  unfold Processor.operandValue valueIn Processor.operandCell
  rw [e.operandByte_of_holds h hmode]

/-- The operand that the processor fetches is the one that the instruction was written with. -/
theorem Encoded.operand_of_holds (h : Holds cpu.memory.bytes cpu.registers.pc e.bytes) :
    cpu.operand e.row = e.given := by
  unfold Processor.operand given Processor.operandCell
  cases hmode : e.row.mode with
  | implied => rfl
  | immediate | zeroPage | relative =>
    have hne : e.row.mode ≠ .implied := by
      rw [hmode]
      exact nofun
    rw [e.operandByte_of_holds h hne]

/-- What the mnemonic does to its operand is what the whole instruction does. -/
theorem Encoded.perform_of_holds (h : Holds cpu.memory.bytes cpu.registers.pc e.bytes)
    (straight : e.row.mnemonic.isStraight = true) (pc : UInt16) (cycles : Ticks) :
    e.perform (cpu.movedTo pc cycles) = .ok (.proceed 0) ((cpu.next e.row).movedTo pc cycles) := by
  have hperform := cpu.perform_operand e.row (accepts_of_mem e.mem_table)
  obtain ⟨-, -, hending, hbrk⟩ := cpu.straight straight
  rw [e.operand_of_holds h, hending] at hperform
  refine (Mnemonic.perform_movedTo straight hperform pc cycles).trans ?_
  unfold Processor.next Processor.movedTo
  rw [if_neg hbrk, ← cpu.effect_state e.row]
  rfl

/-- An instruction writes below the program. -/
theorem Holds.next {start : Nat} {bytes : List UInt8}
    (h : Holds cpu.memory.bytes (UInt16.ofNat start) bytes) (above : 0x100 ≤ start)
    (fits : start + bytes.length ≤ 65536) (i : Instruction) :
    Holds (cpu.next i).memory.bytes (UInt16.ofNat start) bytes := by
  intro index hindex
  have haddress : (UInt16.ofNat start + UInt16.ofNat index).toNat = start + index := by
    rw [← UInt16.ofNat_add, UInt16.toNat_ofNat']
    omega
  rw [Memory.byteAt_bytes, cpu.next_get i (by omega), ← Memory.byteAt_bytes]
  exact h index hindex

/-- The cells that an instruction does not write to are as before. -/
theorem Encoded.get_next (h : Holds cpu.memory.bytes cpu.registers.pc e.bytes) {cell : UInt16}
    (hcell : ¬ e.Stores cell) : (cpu.next e.row).memory.get cell = cpu.memory.get cell := by
  apply Classical.byContradiction
  intro hchanged
  obtain ⟨hmnemonic, hoperand⟩ := Processor.effect_get hchanged
  have haccepts := accepts_of_mem e.mem_table
  have hmode : e.row.mode = .zeroPage := by
    rcases hmnemonic with hm | hm
    · simpa [hm, Mnemonic.accepts] using haccepts
    · simpa [hm, Mnemonic.accepts] using haccepts
  have hne : e.row.mode ≠ .implied := by
    rw [hmode]
    decide
  refine hcell ⟨hmnemonic, ?_⟩
  rw [hoperand, Processor.operandCell, e.operandByte_of_holds h hne]

/-- The cells that are written to lie in page zero. -/
theorem Encoded.not_stores (e : Encoded) {cell : UInt16} (above : 0x100 ≤ cell.toNat) :
    ¬ e.Stores cell := by
  rintro ⟨-, rfl⟩
  have hlt := e.operand.toNat_lt
  rw [UInt8.toNat_toUInt16] at above
  omega

/-- Bytes that an instruction does not write to are held after it. -/
theorem Encoded.holds_next (h : Holds cpu.memory.bytes cpu.registers.pc e.bytes) {origin : UInt16}
    {bytes : List UInt8} (held : Holds cpu.memory.bytes origin bytes)
    (apart : ∀ index < bytes.length, ¬ e.Stores (origin + UInt16.ofNat index)) :
    Holds (cpu.next e.row).memory.bytes origin bytes := by
  intro index hindex
  rw [Memory.byteAt_bytes, e.get_next h (apart index hindex), ← Memory.byteAt_bytes]
  exact held index hindex

end

/-! ## A whole program -/

namespace Engine

variable {σ : Type} {engine : Engine σ} {program : List Encoded} {s t : Session σ}

/-- The engine executes the instructions of a program once each and in order, as applying what their
mnemonics do would have it. -/
structure Traverses (engine : Engine σ) (program : List Encoded) (s : Session σ)
    (events : List TraceEvent) (t : Session σ) : Prop where
  executes : engine.Executes s events t
  length : events.length = program.length
  running : t.cpu.isHalted = false
  pc : t.cpu.registers.pc =
    s.cpu.registers.pc + UInt16.ofNat (program.flatMap Encoded.bytes).length
  cycles : t.cpu.cycles.count.toNat =
    s.cpu.cycles.count.toNat + Encoded.baseCost program
  performs : ∀ pc cycles, program.mapM Encoded.perform (s.cpu.movedTo pc cycles) =
    .ok (program.map fun _ => .proceed 0) (t.cpu.movedTo pc cycles)

/-- One instruction comes before the others. -/
theorem Traverses.cons {e : Encoded} {events : List TraceEvent}
    (holds : Holds s.cpu.memory.bytes s.cpu.registers.pc e.bytes)
    (straight : e.row.mnemonic.isStraight = true) (running : s.cpu.isHalted = false)
    (room : s.cpu.cycles.count.toNat + 7 < UInt64.size)
    (rest : engine.Traverses program ⟨s.cpu.next e.row, engine.observe s.cpu e.row s.seen⟩
      events t) :
    engine.Traverses (e :: program) s (.capture s.cpu e.row :: events) t := by
  rcases s.cpu.straight straight with ⟨hsuccessor, hcost, -, -⟩
  have decoded := e.decode_of_holds holds
  have hstep := engine.step_of_decode?_eq_some s running decoded room
  have hpc : (s.cpu.next e.row).registers.pc = s.cpu.registers.pc + UInt16.ofNat e.row.size :=
    hsuccessor
  have hticks := Processor.next_cycles_toNat e.mem_table room
  rw [hcost] at hticks
  constructor
  · exact .step running decoded hstep rest.executes
  · rw [List.length_cons, List.length_cons, rest.length]
  · exact rest.running
  · rw [rest.pc, hpc, List.flatMap_cons, List.length_append, e.length_bytes, UInt16.ofNat_add,
      UInt16.add_assoc]
  · rw [rest.cycles, hticks, Encoded.baseCost, Nat.add_assoc]
  · intro pc cycles
    have hperform := e.perform_of_holds holds straight pc cycles
    rw [List.mapM_cons, Exec.bind_of_ok hperform, Exec.bind_of_ok (rest.performs pc cycles)]
    rfl

/-- The engine performs instructions one after the other. Each of them is found at the program
counter when its turn comes, wherever that is. -/
inductive Performs (engine : Engine σ) : Session σ → List Encoded → Session σ → Prop where
  | done (s : Session σ) : Performs engine s [] s
  | step {s s' t : Session σ} {e : Encoded} {program : List Encoded} {report : Step}
      (running : s.cpu.isHalted = false)
      (holds : Holds s.cpu.memory.bytes s.cpu.registers.pc e.bytes)
      (first : engine.step s = .ok report s') (rest : Performs engine s' program t) :
      Performs engine s (e :: program) t

/-- Instructions that are performed one after the other may be parted anywhere. -/
theorem performs_append_iff {program' : List Encoded} :
    engine.Performs s (program ++ program') t ↔
      ∃ u, engine.Performs s program u ∧ engine.Performs u program' t := by
  constructor
  · intro h
    induction program generalizing s with
    | nil => exact ⟨s, .done s, h⟩
    | cons e program ih =>
      cases h with
      | step running holds first rest =>
        rcases ih rest with ⟨u, hbefore, hafter⟩
        exact ⟨u, .step running holds first hbefore, hafter⟩
  · rintro ⟨u, hbefore, hafter⟩
    induction hbefore with
    | done s => exact hafter
    | step running holds first rest ih => exact .step running holds first (ih hafter)

/-- The first of the instructions that are performed changes the processor as its row says. -/
theorem Performs.of_cons {e : Encoded} (h : engine.Performs s (e :: program) t) :
    Holds s.cpu.memory.bytes s.cpu.registers.pc e.bytes ∧
      engine.Performs ⟨s.cpu.next e.row, engine.observe s.cpu e.row s.seen⟩ program t := by
  cases h with
  | step running holds first rest =>
    obtain ⟨i, decoded, -, rfl, -⟩ := executed_of_step_eq_ok running first
    rw [e.decode_of_holds holds] at decoded
    cases decoded
    exact ⟨holds, rest⟩

/-- The cells that instructions do not write to are as before. -/
theorem Performs.get_memory (h : engine.Performs s program t) {cell : UInt16}
    (apart : ∀ e ∈ program, ¬ e.Stores cell) :
    t.cpu.memory.get cell = s.cpu.memory.get cell := by
  induction program generalizing s with
  | nil =>
    cases h
    rfl
  | cons e program ih =>
    rcases h.of_cons with ⟨holds, hrest⟩
    rcases List.forall_mem_cons.1 apart with ⟨hfirst, hothers⟩
    exact (ih hrest hothers).trans (e.get_next holds hfirst)

/-- Instructions that are performed are executed. -/
theorem Performs.executes (h : engine.Performs s program t) :
    ∃ events, engine.Executes s events t ∧ events.length = program.length := by
  induction h with
  | done s => exact ⟨[], .done s, rfl⟩
  | @step s s' t e program report running holds first rest ih =>
    rcases ih with ⟨events, hexecutes, hlength⟩
    refine ⟨_, .step running (e.decode_of_holds holds) first hexecutes, ?_⟩
    rw [List.length_cons, List.length_cons, hlength]

/-- A program that is straight, and does not write to itself, is performed. -/
theorem exists_performs (engine : Engine σ)
    (straight : ∀ e ∈ program, e.row.mnemonic.isStraight = true)
    (running : s.cpu.isHalted = false)
    (holds : Holds s.cpu.memory.bytes s.cpu.registers.pc (program.flatMap Encoded.bytes))
    (apart : ∀ e ∈ program, ∀ index < (program.flatMap Encoded.bytes).length,
      ¬ e.Stores (s.cpu.registers.pc + UInt16.ofNat index))
    (room : s.cpu.cycles.count.toNat + 7 * program.length < UInt64.size) :
    ∃ t, engine.Performs s program t := by
  induction program generalizing s with
  | nil => exact ⟨s, .done s⟩
  | cons e program ih =>
    rw [List.flatMap_cons] at holds apart
    rw [List.length_cons] at room
    rcases List.forall_mem_cons.1 straight with ⟨hstraight, hothers⟩
    rcases List.forall_mem_cons.1 apart with ⟨hfirst, hapart⟩
    rcases s.cpu.straight hstraight with ⟨hsuccessor, -, -, hbrk⟩
    have hhead := holds.append_left
    have hstep := engine.step_of_decode?_eq_some s running (e.decode_of_holds hhead) (by omega)
    -- the others are found where the first one ends, although it may have written
    have hshift : ∀ index, s.cpu.successor e.row + UInt16.ofNat index =
        s.cpu.registers.pc + UInt16.ofNat (e.bytes.length + index) := by
      intro index
      rw [hsuccessor, Processor.following, e.length_bytes, UInt16.ofNat_add, UInt16.add_assoc]
    have hrest : Holds (s.cpu.next e.row).memory.bytes (s.cpu.successor e.row)
        (program.flatMap Encoded.bytes) := by
      have hheld := e.holds_next hhead holds hfirst
      rw [hsuccessor, Processor.following, ← e.length_bytes]
      exact hheld.append_right
    let s' : Session σ := ⟨s.cpu.next e.row, engine.observe s.cpu e.row s.seen⟩
    have hnext : ∀ e' ∈ program, ∀ index < (program.flatMap Encoded.bytes).length,
        ¬ e'.Stores (s'.cpu.registers.pc + UInt16.ofNat index) := by
      intro e' he' index hindex
      show ¬ e'.Stores (s.cpu.successor e.row + UInt16.ofNat index)
      rw [hshift]
      refine hapart e' he' _ ?_
      rw [List.length_append]
      omega
    rcases ih (s := s') hothers (Processor.isHalted_next_of_ne_brk running hbrk) hrest hnext
      (Processor.room_next e.mem_table room) with ⟨t, performs⟩
    exact ⟨t, .step running hhead hstep performs⟩

/-- A straight program that is performed is executed as applying what its mnemonics do would have
it. -/
theorem Performs.traverses (h : engine.Performs s program t)
    (straight : ∀ e ∈ program, e.row.mnemonic.isStraight = true)
    (running : s.cpu.isHalted = false)
    (room : s.cpu.cycles.count.toNat + 7 * program.length < UInt64.size) :
    ∃ events, engine.Traverses program s events t := by
  induction program generalizing s with
  | nil =>
    cases h
    exact ⟨[], .done _, rfl, running, (UInt16.add_zero _).symm, rfl, fun _ _ => rfl⟩
  | cons e program ih =>
    rw [List.length_cons] at room
    rcases List.forall_mem_cons.1 straight with ⟨hstraight, hothers⟩
    rcases s.cpu.straight hstraight with ⟨-, -, -, hbrk⟩
    rcases h.of_cons with ⟨holds, hrest⟩
    rcases ih hrest hothers (Processor.isHalted_next_of_ne_brk running hbrk)
      (Processor.room_next e.mem_table room) with ⟨events, traverses⟩
    exact ⟨_, traverses.cons holds hstraight running (by omega)⟩

/-- The program counter is told by `start`, which does not wrap around where the program ends at the
last address. -/
theorem exists_traverses (engine : Engine σ)
    (straight : ∀ e ∈ program, e.row.mnemonic.isStraight = true) {start : Nat}
    (above : 0x100 ≤ start) (fits : start + (program.flatMap Encoded.bytes).length ≤ 65536)
    (running : s.cpu.isHalted = false) (placed : s.cpu.registers.pc = UInt16.ofNat start)
    (holds : Holds s.cpu.memory.bytes (UInt16.ofNat start) (program.flatMap Encoded.bytes))
    (room : s.cpu.cycles.count.toNat + 7 * program.length < UInt64.size) :
    ∃ events t, engine.Traverses program s events t := by
  rw [← placed] at holds
  have hapart : ∀ e ∈ program, ∀ index < (program.flatMap Encoded.bytes).length,
      ¬ e.Stores (s.cpu.registers.pc + UInt16.ofNat index) := by
    intro e he index hindex
    apply e.not_stores
    rw [placed, ← UInt16.ofNat_add, UInt16.toNat_ofNat']
    omega
  rcases engine.exists_performs straight running holds hapart room with ⟨t, performs⟩
  rcases performs.traverses straight running room with ⟨events, traverses⟩
  exact ⟨events, t, traverses⟩

/-- What a run of a program comes to that is executed from its first to its last instruction. -/
structure RunsStraight (engine : Engine σ) (program : List Encoded) (origin : UInt16)
    (s t : Session σ) : Prop where
  run : engine.run origin (.steps program.length) s =
    .ok ⟨.limitReached, program.length, t.cpu.cycles⟩ t
  pc : t.cpu.registers.pc.toNat =
    (origin.toNat + (program.flatMap Encoded.bytes).length) % 65536
  cycles : t.cpu.cycles.count.toNat =
    s.cpu.cycles.count.toNat + Encoded.baseCost program
  /-- None of the mnemonics asks for more ticks or for a halt, and all but the program counter and
  the ticks is as they leave it. -/
  performs : ∃ cpu, program.mapM Encoded.perform s.cpu = .ok (program.map fun _ => .proceed 0) cpu ∧
    t.cpu = cpu.movedTo t.cpu.registers.pc t.cpu.cycles

/-- A program that is straight, and lies above page zero and within memory, runs as what its
mnemonics do in order. How many instructions and ticks that takes does not depend on any data. -/
theorem runs_straight (engine : Engine σ) (s : Session σ) (origin : UInt16)
    (straight : ∀ e ∈ program, e.row.mnemonic.isStraight = true)
    (running : s.cpu.isHalted = false) (above : 0x100 ≤ origin.toNat)
    (fits : origin.toNat + (program.flatMap Encoded.bytes).length ≤ 65536)
    (holds : Holds s.cpu.memory.bytes origin (program.flatMap Encoded.bytes))
    (room : s.cpu.cycles.count.toNat + 7 * program.length < UInt64.size) :
    ∃ t, engine.RunsStraight program origin s t := by
  let limit := Limit.steps program.length
  have hplaced : UInt16.ofNat origin.toNat = origin := UInt16.ofNat_toNat
  have hholds : Holds s.cpu.memory.bytes (UInt16.ofNat origin.toNat)
      (program.flatMap Encoded.bytes) := by
    rw [hplaced]
    exact holds
  rcases engine.exists_traverses (s := engine.start origin limit s) straight above fits running
    hplaced.symm hholds room with ⟨events, t, traverses⟩
  have hlimit : limit = .steps events.length := congrArg Limit.steps traverses.length.symm
  have hexecutes := traverses.executes
  rw [hlimit] at hexecutes
  have hrun := run_steps_of_executes running hexecutes traverses.running
  have hpc : t.cpu.registers.pc.toNat =
      (origin.toNat + (program.flatMap Encoded.bytes).length) % 65536 := by
    rw [traverses.pc, UInt16.toNat_add, UInt16.toNat_ofNat']
    exact Nat.add_mod_mod _ _ _
  rw [traverses.length] at hrun
  -- the end of the run is put on record
  let ended : RunOutcome := ⟨.limitReached, program.length, t.cpu.cycles⟩
  exact ⟨⟨t.cpu, engine.log (.limitReached ended) t.seen⟩, hrun, hpc, traverses.cycles, _,
    traverses.performs s.cpu.registers.pc s.cpu.cycles, rfl⟩

/-- A program that ends at the last address. -/
def storing : List Encoded :=
  Encoded.sequence
    [(⟨0xA9, .lda, .immediate, 2⟩, 0x7F), (⟨0x69, .adc, .immediate, 2⟩, 0x01),
      (⟨0x85, .sta, .zeroPage, 3⟩, 0xF8), (⟨0xE6, .inc, .zeroPage, 5⟩, 0xF8)] (by decide)

/-- A processor into which it has been loaded. -/
def storingLoaded : Processor :=
  { Processor.powerUp 0 with
    memory := Memory.zeroed.store 0xFFF8 (storing.flatMap Encoded.bytes) }

theorem runs_straight_of_storing :
    ((∀ e ∈ storing, e.row.mnemonic.isStraight = true) ∧
      Holds storingLoaded.memory.bytes 0xFFF8 (storing.flatMap Encoded.bytes)) ∧
      ∃ t, ({} : Engine Unit).RunsStraight storing 0xFFF8 ⟨storingLoaded, ()⟩ t ∧
        t.cpu.registers.pc = 0 ∧ t.cpu.cycles.count = 12 := by
  have hload : Memory.zeroed.load (0xFFF8 : UInt16).toUInt32 (storing.flatMap Encoded.bytes) =
      .ok storingLoaded.memory := rfl
  have hholds := Memory.holds_of_load hload
  have hstraight : ∀ e ∈ storing, e.row.mnemonic.isStraight = true := by decide
  rcases ({} : Engine Unit).runs_straight ⟨storingLoaded, ()⟩ 0xFFF8 hstraight rfl (by decide)
    (by decide) hholds (by decide) with ⟨t, hruns⟩
  exact ⟨⟨hstraight, hholds⟩, t, hruns, UInt16.toNat_inj.1 hruns.pc,
    UInt64.toNat_inj.1 hruns.cycles⟩

end Engine

end Cpu6502
