import Cpu6502.Engine.Step

/-! # The transition of one instruction

The engine executes an instruction in stages: it fetches the opcode and the operand, performs the
mnemonic, and charges the cost. Here the stages are put together into one function on processors,
`Processor.next`, and `Engine.step_of_decode?_eq_some` says that a step of the engine is that
function. What a step does is read off `next` from there on, without opening the engine again.
-/

namespace Cpu6502

open Instruction

attribute [ext] Registers Flags Ticks Processor

namespace Processor

theorem isHalted_eq_false_iff {cpu : Processor} : cpu.isHalted = false ↔ cpu.state = .running := by
  unfold isHalted
  cases cpu.state <;> decide

/-! ## What an instruction works on -/

/-- The byte after the opcode. -/
def operandByte (cpu : Processor) : UInt8 :=
  cpu.memory.get (cpu.registers.pc + 1)

/-- The cell of page zero that the operand byte names. -/
def operandCell (cpu : Processor) : UInt16 :=
  cpu.operandByte.toUInt16

/-- The byte that an instruction reads: what its cell holds in the zero-page mode, and the operand
byte itself otherwise. -/
def operandValue (cpu : Processor) (i : Instruction) : UInt8 :=
  if i.mode = .zeroPage then cpu.memory.get cpu.operandCell else cpu.operandByte

/-- The operand of an instruction. -/
def operand (cpu : Processor) (i : Instruction) : Operand :=
  match i.mode with
  | .implied => .none
  | .immediate => .literal cpu.operandByte
  | .zeroPage => .address cpu.operandCell
  | .relative => .offset cpu.operandByte.toInt8

/-! ## Where it leads and what it costs -/

/-- The address after the last byte of an instruction. -/
def following (cpu : Processor) (i : Instruction) : UInt16 :=
  cpu.registers.pc + UInt16.ofNat i.size

/-- Holds of a branch whose condition the carry flag meets. -/
def branches (cpu : Processor) (i : Instruction) : Bool :=
  match i.mnemonic with
  | .bcc => !cpu.flags.c
  | .bcs => cpu.flags.c
  | _ => false

/-- The address of the instruction that is executed next. -/
def successor (cpu : Processor) (i : Instruction) : UInt16 :=
  if cpu.branches i then branchTarget (cpu.following i) cpu.operandByte.toInt8
  else cpu.following i

/-- The ticks above the base cost. -/
def penalty (cpu : Processor) (i : Instruction) : UInt32 :=
  if cpu.branches i then
    if pageCrossed (cpu.following i) (cpu.successor i) then 2 else 1
  else 0

/-- The ticks that an instruction takes. -/
def cost (cpu : Processor) (i : Instruction) : UInt32 :=
  i.cycles + cpu.penalty i

/-! ## The state it leaves -/

/-- The change of the accumulator, the flags and the memory. -/
def effect (cpu : Processor) (i : Instruction) : Processor :=
  match i.mnemonic with
  | .brk => { cpu with flags := { cpu.flags with b := true } }
  | .nop | .bcc | .bcs => cpu
  | .clc => cpu.withCarry false
  | .sec => cpu.withCarry true
  | .lda => cpu.loadAccumulator (cpu.operandValue i)
  | .sta => { cpu with memory := cpu.memory.set cpu.operandCell cpu.registers.a }
  | .adc => cpu.addWithCarry (cpu.operandValue i)
  | .cmp => cpu.compare (cpu.operandValue i)
  | .inc =>
    let result := cpu.memory.get cpu.operandCell + 1
    { cpu with
      memory := cpu.memory.set cpu.operandCell result
      flags := cpu.flags.withResult result }

/-- The state after an instruction. -/
def next (cpu : Processor) (i : Instruction) : Processor :=
  { (cpu.effect i).jump (cpu.successor i) with
    cycles := ⟨cpu.cycles.count + (cpu.cost i).toUInt64⟩
    state := if i.mnemonic = .brk then .halted else cpu.state }

/-- How an instruction ends. -/
def ending (cpu : Processor) (i : Instruction) : Outcome :=
  if i.mnemonic = .brk then .halt else .proceed (cpu.penalty i)

/-- What a step reports that executes an instruction. -/
def report (cpu : Processor) (i : Instruction) : Step :=
  if i.mnemonic = .brk then .halted else .executed (cpu.cost i)

@[simp] theorem effect_cycles (cpu : Processor) (i : Instruction) :
    (cpu.effect i).cycles = cpu.cycles := by
  unfold effect
  cases i.mnemonic <;> rfl

@[simp] theorem effect_state (cpu : Processor) (i : Instruction) :
    (cpu.effect i).state = cpu.state := by
  unfold effect
  cases i.mnemonic <;> rfl

@[simp] theorem next_pc (cpu : Processor) (i : Instruction) :
    (cpu.next i).registers.pc = cpu.successor i := rfl

@[simp] theorem next_a (cpu : Processor) (i : Instruction) :
    (cpu.next i).registers.a = (cpu.effect i).registers.a := rfl

@[simp] theorem next_flags (cpu : Processor) (i : Instruction) :
    (cpu.next i).flags = (cpu.effect i).flags := rfl

@[simp] theorem next_memory (cpu : Processor) (i : Instruction) :
    (cpu.next i).memory = (cpu.effect i).memory := rfl

@[simp] theorem next_state (cpu : Processor) (i : Instruction) :
    (cpu.next i).state = if i.mnemonic = .brk then .halted else cpu.state := rfl

@[simp] theorem next_cycles (cpu : Processor) (i : Instruction) :
    (cpu.next i).cycles = ⟨cpu.cycles.count + (cpu.cost i).toUInt64⟩ := rfl

@[simp] theorem next_x (cpu : Processor) (i : Instruction) :
    (cpu.next i).registers.x = cpu.registers.x := by
  show (cpu.effect i).registers.x = _
  unfold effect
  cases i.mnemonic <;> rfl

@[simp] theorem next_y (cpu : Processor) (i : Instruction) :
    (cpu.next i).registers.y = cpu.registers.y := by
  show (cpu.effect i).registers.y = _
  unfold effect
  cases i.mnemonic <;> rfl

@[simp] theorem next_sp (cpu : Processor) (i : Instruction) :
    (cpu.next i).registers.sp = cpu.registers.sp := by
  show (cpu.effect i).registers.sp = _
  unfold effect
  cases i.mnemonic <;> rfl

@[simp] theorem next_d (cpu : Processor) (i : Instruction) :
    (cpu.next i).flags.d = cpu.flags.d := by
  show (cpu.effect i).flags.d = _
  unfold effect
  cases i.mnemonic <;> rfl

@[simp] theorem next_i (cpu : Processor) (i : Instruction) :
    (cpu.next i).flags.i = cpu.flags.i := by
  show (cpu.effect i).flags.i = _
  unfold effect
  cases i.mnemonic <;> rfl

end Processor

/-! ## Computations, one stage after another -/

theorem Exec.bind_of_ok {α β : Type} {x : Exec α} {f : α → Exec β} {cpu cpu' : Processor} {a : α}
    (h : x cpu = .ok a cpu') : (x >>= f) cpu = f a cpu' := by
  show EStateM.bind x f cpu = _
  simp only [EStateM.bind, h]

theorem Exec.watched_of_ok {σ α : Type} {x : Exec α} {cpu cpu' : Processor} {a : α}
    (h : x cpu = .ok a cpu') (seen : σ) :
    (x.watched : Watched σ α) ⟨cpu, seen⟩ = .ok a ⟨cpu', seen⟩ := by
  rw [Exec.watched_apply, h]

theorem Exec.watched_of_error {σ α : Type} {x : Exec α} {cpu cpu' : Processor} {fault : Fault}
    (h : x cpu = .error fault cpu') (seen : σ) :
    (x.watched : Watched σ α) ⟨cpu, seen⟩ = .error fault ⟨cpu', seen⟩ := by
  rw [Exec.watched_apply, h]

theorem Watched.bind_of_ok {σ α β : Type} {x : Watched σ α} {f : α → Watched σ β}
    {s s' : Session σ} {a : α} (h : x s = .ok a s') : (x >>= f) s = f a s' := by
  show EStateM.bind x f s = _
  simp only [EStateM.bind, h]

theorem Exec.charge_of_addCost? {cpu : Processor} {cost : UInt32} {cycles : Ticks}
    (h : cpu.cycles.addCost? cost = some cycles) :
    Exec.charge cost cpu = .ok () { cpu with cycles } := by
  have hget : (get : Exec Processor) cpu = .ok cpu cpu := rfl
  unfold Exec.charge
  rw [Exec.bind_of_ok hget]
  simp only [h]
  rfl

theorem Exec.charge_of_addCost?_eq_none {cpu : Processor} {cost : UInt32}
    (h : cpu.cycles.addCost? cost = none) :
    Exec.charge cost cpu = .error .tickOverflow cpu := by
  have hget : (get : Exec Processor) cpu = .ok cpu cpu := rfl
  unfold Exec.charge
  rw [Exec.bind_of_ok hget]
  simp only [h]
  rfl

theorem Watched.bind_of_error {σ α β : Type} {x : Watched σ α} {f : α → Watched σ β}
    {s s' : Session σ} {fault : Fault} (h : x s = .error fault s') :
    (x >>= f) s = .error fault s' := by
  show EStateM.bind x f s = _
  simp only [EStateM.bind, h]

@[simp] theorem Watched.cpu_apply {σ : Type} (s : Session σ) : Watched.cpu s = .ok s.cpu s := rfl

@[simp] theorem Engine.record_apply {σ : Type} (engine : Engine σ) (record : Record)
    (s : Session σ) :
    engine.record record s = .ok () { s with seen := engine.log record s.seen } := rfl

/-! ## The stages of an instruction -/

/-- The modes that give a mnemonic an operand of the shape it works on. -/
def Mnemonic.accepts : Mnemonic → AddressingMode → Bool
  | .brk, mode | .nop, mode | .clc, mode | .sec, mode => mode = .implied
  | .lda, mode | .adc, mode | .cmp, mode => mode = .immediate || mode = .zeroPage
  | .sta, mode | .inc, mode => mode = .zeroPage
  | .bcc, mode | .bcs, mode => mode = .relative

/-- Every row of the table gives its mnemonic a mode that it accepts. -/
theorem Instruction.accepts_of_mem {i : Instruction} (hi : i ∈ table) :
    i.mnemonic.accepts i.mode := by
  have hall : ∀ i ∈ table, i.mnemonic.accepts i.mode := by decide
  exact hall i hi

namespace Processor

theorem fetch_operand (cpu : Processor) (i : Instruction) :
    i.mode.fetch (cpu.jump (cpu.registers.pc + 1)) =
      .ok (cpu.operand i) (cpu.jump (cpu.following i)) := by
  have htwo : cpu.registers.pc + 1 + 1 = cpu.registers.pc + 2 := by
    rw [UInt16.add_assoc]
    rfl
  have hbyte : Exec.fetch (cpu.jump (cpu.registers.pc + 1)) =
      .ok cpu.operandByte (cpu.jump (cpu.registers.pc + 2)) := by
    rw [Exec.fetch_apply, ← htwo]
    rfl
  unfold operand following Instruction.size
  cases i.mode with
  | implied => rfl
  | immediate | zeroPage | relative =>
    exact Exec.bind_of_ok hbyte

theorem value_operand (cpu : Processor) (i : Instruction)
    (hmode : i.mode = .immediate ∨ i.mode = .zeroPage) (target : UInt16) :
    (cpu.operand i).value (cpu.jump target) = .ok (cpu.operandValue i) (cpu.jump target) := by
  unfold operand operandValue
  rcases hmode with hmode | hmode
  · simp only [hmode, reduceCtorEq, if_false]
    rfl
  · simp only [hmode, if_true]
    exact Exec.read_toUInt32 cpu.operandCell (cpu.jump target)

theorem cell_operand (cpu : Processor) (i : Instruction) (hmode : i.mode = .zeroPage)
    (target : UInt16) :
    (cpu.operand i).cell (cpu.jump target) = .ok cpu.operandCell (cpu.jump target) := by
  unfold operand
  rw [hmode]
  rfl

theorem branchIf_operand (cpu : Processor) (i : Instruction) (hmode : i.mode = .relative) :
    branchIf (cpu.branches i) (cpu.operand i) (cpu.jump (cpu.following i)) =
      .ok (.proceed (cpu.penalty i)) (cpu.jump (cpu.successor i)) := by
  unfold penalty successor operand
  rw [hmode]
  cases cpu.branches i with
  | false => rfl
  | true => rfl

/-- A mnemonic changes the accumulator, the flags and the memory as `effect` says, and only a
branch that is taken moves the program counter. -/
theorem perform_operand (cpu : Processor) (i : Instruction)
    (hmode : i.mnemonic.accepts i.mode) :
    i.mnemonic.perform (cpu.operand i) (cpu.jump (cpu.following i)) =
      .ok (cpu.ending i) ((cpu.effect i).jump (cpu.successor i)) := by
  -- each mnemonic meets its operand in one of three ways: as a distance, a byte or a cell
  have hbranch := cpu.branchIf_operand i
  have hvalue := cpu.value_operand i
  have hcell := cpu.cell_operand i
  unfold ending effect
  cases hm : i.mnemonic with
  | brk | nop | clc | sec =>
    simp only [penalty, successor, branches, hm]
    rfl
  | lda | adc | cmp =>
    simp only [hm, Mnemonic.accepts, Bool.or_eq_true, decide_eq_true_eq] at hmode
    simp only [penalty, successor, branches, hm]
    exact Exec.bind_of_ok (hvalue hmode _)
  | sta =>
    simp only [hm, Mnemonic.accepts, decide_eq_true_eq] at hmode
    simp only [penalty, successor, branches, hm]
    refine (Exec.bind_of_ok (hcell hmode _)).trans ?_
    exact Exec.bind_of_ok (Exec.write_toUInt32 cpu.operandCell cpu.registers.a _)
  | inc =>
    simp only [hm, Mnemonic.accepts, decide_eq_true_eq] at hmode
    simp only [penalty, successor, branches, hm]
    refine (Exec.bind_of_ok (hcell hmode _)).trans ?_
    refine (Exec.bind_of_ok (Exec.read_toUInt32 cpu.operandCell _)).trans ?_
    exact Exec.bind_of_ok (Exec.write_toUInt32 cpu.operandCell _ _)
  | bcc | bcs =>
    simp only [hm, Mnemonic.accepts, decide_eq_true_eq] at hmode
    have htaken := hbranch hmode
    simp only [branches, hm] at htaken
    exact htaken

end Processor

/-- An instruction of the table changes the processor as `effect` and `successor` say. -/
theorem Instruction.execute_apply {i : Instruction} (hi : i ∈ table) (cpu : Processor) :
    i.execute cpu =
      .ok (cpu.operand i, cpu.ending i) ((cpu.effect i).jump (cpu.successor i)) := by
  have hopcode : (discard Exec.fetch : Exec Unit) cpu = .ok () (cpu.jump (cpu.registers.pc + 1)) :=
    Exec.bind_of_ok (Exec.fetch_apply cpu)
  have hoperand := Processor.fetch_operand cpu i
  have hperform := cpu.perform_operand i (accepts_of_mem hi)
  unfold Instruction.execute
  rw [Exec.bind_of_ok hopcode, Exec.bind_of_ok hoperand, Exec.bind_of_ok hperform]
  rfl

/-! ## A step of the engine -/

namespace Processor

variable {i : Instruction}

theorem penalty_le (cpu : Processor) (i : Instruction) : (cpu.penalty i).toNat ≤ 2 := by
  unfold penalty
  split
  · split <;> decide
  · decide

/-- Only a branch can be taken. -/
theorem relative_of_branches {cpu : Processor} (hi : i ∈ table) (htaken : cpu.branches i = true) :
    i.mode = .relative := by
  have haccepts := accepts_of_mem hi
  unfold branches at htaken
  cases hm : i.mnemonic with
  | bcc | bcs => simpa [hm, Mnemonic.accepts] using haccepts
  | _ => simp [hm] at htaken

theorem cost_of_brk (cpu : Processor) (hbrk : i.mnemonic = .brk) : cpu.cost i = i.cycles := by
  unfold cost penalty branches
  rw [hbrk]
  exact UInt32.add_zero i.cycles

theorem cost_toNat (cpu : Processor) (hi : i ∈ table) :
    (cpu.cost i).toNat = i.cycles.toNat + (cpu.penalty i).toNat := by
  have hbase : ∀ i ∈ table, i.cycles.toNat ≤ 7 := by decide
  have hcycles := hbase i hi
  have hpenalty := cpu.penalty_le i
  unfold cost
  rw [UInt32.toNat_add, Nat.mod_eq_of_lt (by omega)]

theorem cost_le_seven (cpu : Processor) (hi : i ∈ table) : (cpu.cost i).toNat ≤ 7 := by
  -- a penalty of two on top of seven would be too much, but branches start from less
  have hbase : ∀ i ∈ table, i.cycles.toNat ≤ 7 ∧ (i.mode = .relative → i.cycles.toNat ≤ 5) := by
    decide
  obtain ⟨hcycles, hbranch⟩ := hbase i hi
  have hpenalty := cpu.penalty_le i
  rw [cpu.cost_toNat hi]
  by_cases hmode : i.mode = .relative
  · have := hbranch hmode
    omega
  · have hfree : ¬ cpu.branches i = true := mt (relative_of_branches hi) hmode
    unfold penalty
    rw [if_neg hfree]
    exact hcycles

theorem addCost?_cost {cpu : Processor} (hi : i ∈ table)
    (room : cpu.cycles.count.toNat + 7 < UInt64.size) :
    cpu.cycles.addCost? (cpu.cost i) = some (cpu.next i).cycles := by
  have hcost := cpu.cost_le_seven hi
  have hfits : cpu.cycles.count.toNat + (cpu.cost i).toUInt64.toNat < UInt64.size := by
    rw [UInt32.toNat_toUInt64]
    omega
  unfold Ticks.addCost? Ticks.add?
  rw [if_pos hfits]
  rfl

/-- The tick count after an instruction, as a number. -/
theorem next_cycles_toNat {cpu : Processor} (hi : i ∈ table)
    (room : cpu.cycles.count.toNat + 7 < UInt64.size) :
    (cpu.next i).cycles.count.toNat = cpu.cycles.count.toNat + (cpu.cost i).toNat := by
  have hsum := Ticks.add?_eq_some_iff.1 (addCost?_cost hi room)
  rwa [UInt32.toNat_toUInt64] at hsum

end Processor

/-- A sum of ticks that exists is the sum of the words. -/
theorem Ticks.eq_of_add?_eq_some {t u : Ticks} {n : UInt64} (h : t.add? n = some u) :
    ⟨t.count + n⟩ = u := by
  unfold Ticks.add? at h
  split at h
  · exact Option.some.inj h
  · cases h

namespace Engine

variable {σ : Type}

/-- What has been seen once an instruction has been executed: its event, its record and, for a
BRK, the record of the halt. -/
def observe (engine : Engine σ) (cpu : Processor) (i : Instruction) (seen : σ) : σ :=
  let announced := match engine.hook with
    | some hook => hook (.capture cpu i) seen
    | none => seen
  let next := cpu.next i
  let executed := engine.log
    (.executed cpu.registers.pc i.mnemonic (cpu.operand i) next.registers.a next.flags) announced
  if i.mnemonic = .brk then engine.log (.halted cpu.registers.pc next.cycles) executed
  else executed

/-- What the hook makes of an event, if there is a hook. -/
def notice (engine : Engine σ) (event : TraceEvent) (seen : σ) : σ :=
  match engine.hook with
  | some hook => hook event seen
  | none => seen

/-- What has been seen once an instruction has been performed and before it is charged: its event
and its record. -/
def note (engine : Engine σ) (cpu : Processor) (i : Instruction) (seen : σ) : σ :=
  let next := cpu.next i
  engine.log
    (.executed cpu.registers.pc i.mnemonic (cpu.operand i) next.registers.a next.flags)
    (engine.notice (.capture cpu i) seen)

theorem observe_eq (engine : Engine σ) (cpu : Processor) (i : Instruction) (seen : σ) :
    engine.observe cpu i seen =
      if i.mnemonic = .brk then
        engine.log (.halted cpu.registers.pc (cpu.next i).cycles) (engine.note cpu i seen)
      else engine.note cpu i seen := rfl

/-- The last stage of a step: the charge, and for a BRK the halt. -/
def settle (engine : Engine σ) (cpu : Processor) (i : Instruction) : Watched σ Step :=
  match cpu.ending i with
  | .proceed penalty => do
    Exec.charge (i.cycles + penalty)
    return .executed (i.cycles + penalty)
  | .halt => do
    Exec.charge i.cycles
    Exec.halt
    engine.record (.halted cpu.registers.pc (← Watched.cpu).cycles)
    return .halted

/-- A step of a running processor performs the instruction at its program counter and settles. -/
theorem step_eq_settle (engine : Engine σ) (session : Session σ) {i : Instruction}
    (running : session.cpu.isHalted = false)
    (decoded : decode? (session.cpu.memory.get session.cpu.registers.pc) = some i) :
    engine.step session =
      engine.settle session.cpu i
        ⟨(session.cpu.effect i).jump (session.cpu.successor i),
          engine.note session.cpu i session.seen⟩ := by
  obtain ⟨cpu, seen⟩ := session
  have hexecute := execute_apply (decode?_eq_some decoded).1 cpu
  -- the hook sees the event before anything is executed
  have hannounce : engine.announce (.capture cpu i) ⟨cpu, seen⟩ =
      .ok () ⟨cpu, engine.notice (.capture cpu i) seen⟩ := by
    unfold announce notice
    cases engine.hook with
    | none => rfl
    | some hook => rfl
  show (if cpu.isHalted then _ else _ : Watched σ Step) ⟨cpu, seen⟩ = _
  rw [if_neg (by simpa using running)]
  refine (Watched.bind_of_ok (Exec.watched_of_ok (Exec.read_toUInt32 _ cpu) seen)).trans ?_
  simp only [decoded]
  refine (Watched.bind_of_ok hannounce).trans ?_
  refine (Watched.bind_of_ok (Exec.watched_of_ok hexecute _)).trans ?_
  refine (Watched.bind_of_ok (Watched.cpu_apply _)).trans ?_
  refine (Watched.bind_of_ok (engine.record_apply _ _)).trans ?_
  rfl

/-- The charge of an instruction that has been performed. -/
theorem settle_eq (engine : Engine σ) (cpu : Processor) (i : Instruction) (seen : σ) :
    engine.settle cpu i ⟨(cpu.effect i).jump (cpu.successor i), engine.note cpu i seen⟩ =
      match cpu.cycles.addCost? (cpu.cost i) with
      | some _ => .ok (cpu.report i) ⟨cpu.next i, engine.observe cpu i seen⟩
      | none =>
        .error .tickOverflow
          ⟨(cpu.effect i).jump (cpu.successor i), engine.note cpu i seen⟩ := by
  have hticks : ((cpu.effect i).jump (cpu.successor i)).cycles = cpu.cycles := cpu.effect_cycles i
  have hcost := cpu.cost_of_brk (i := i)
  unfold settle Processor.ending Processor.report
  rw [engine.observe_eq]
  cases hcharge : cpu.cycles.addCost? (cpu.cost i) with
  | none =>
    have hfails := Exec.charge_of_addCost?_eq_none (by rw [hticks]; exact hcharge)
    have hwatched := Exec.watched_of_error hfails (engine.note cpu i seen)
    -- a BRK is charged its base cost, which is all of its cost
    by_cases hbrk : i.mnemonic = .brk
    · simp only [hbrk, if_true, ← hcost hbrk]
      exact Watched.bind_of_error hwatched
    · simp only [hbrk, if_false]
      exact Watched.bind_of_error hwatched
  | some cycles =>
    have hnext : (cpu.next i).cycles = cycles := Ticks.eq_of_add?_eq_some hcharge
    have hpays := Exec.charge_of_addCost? (by rw [hticks]; exact hcharge)
    have hwatched := Exec.watched_of_ok hpays (engine.note cpu i seen)
    by_cases hbrk : i.mnemonic = .brk
    · simp only [hbrk, if_true, ← hcost hbrk]
      refine (Watched.bind_of_ok hwatched).trans ?_
      simp only [← hnext, Processor.next, hbrk, if_true]
      rfl
    · simp only [hbrk, if_false]
      refine (Watched.bind_of_ok hwatched).trans ?_
      simp only [← hnext, Processor.next, hbrk, if_false]
      rw [← cpu.effect_state i]
      rfl

/-- A step of a running processor executes the instruction at its program counter. -/
theorem step_of_decode?_eq_some (engine : Engine σ) (session : Session σ) {i : Instruction}
    (running : session.cpu.isHalted = false)
    (decoded : Instruction.decode? (session.cpu.memory.get session.cpu.registers.pc) = some i)
    (room : session.cpu.cycles.count.toNat + 7 < UInt64.size) :
    engine.step session =
      .ok (session.cpu.report i)
        ⟨session.cpu.next i, engine.observe session.cpu i session.seen⟩ := by
  have hcharge := Processor.addCost?_cost (decode?_eq_some decoded).1 room
  rw [engine.step_eq_settle session running decoded, settle_eq, hcharge]

/-! ## What a step can do -/

variable {engine : Engine σ} {s s' : Session σ}

/-- A step of a running processor that succeeds has executed an instruction and paid for it. -/
theorem executed_of_step_eq_ok {report : Step} (running : s.cpu.isHalted = false)
    (h : engine.step s = .ok report s') :
    ∃ i, decode? (s.cpu.memory.get s.cpu.registers.pc) = some i ∧ report = s.cpu.report i ∧
      s' = ⟨s.cpu.next i, engine.observe s.cpu i s.seen⟩ ∧
      s'.cpu.cycles.count.toNat = s.cpu.cycles.count.toNat + (s.cpu.cost i).toNat := by
  cases decoded : decode? (s.cpu.memory.get s.cpu.registers.pc) with
  | none =>
    have hfails := engine.step_of_decode?_eq_none s running decoded
    rw [h] at hfails
    cases hfails
  | some i =>
    rw [engine.step_eq_settle s running decoded, settle_eq] at h
    cases hcharge : s.cpu.cycles.addCost? (s.cpu.cost i) with
    | none =>
      rw [hcharge] at h
      cases h
    | some cycles =>
      rw [hcharge] at h
      cases h
      refine ⟨i, rfl, rfl, rfl, ?_⟩
      have hsum := Ticks.add?_eq_some_iff.1 hcharge
      rw [UInt32.toNat_toUInt64] at hsum
      rw [Processor.next_cycles, ← hsum]
      exact congrArg (fun t : Ticks => t.count.toNat) (Ticks.eq_of_add?_eq_some hcharge)

/-- A step fails only on a running processor, because the opcode has no row, which is found before
anything changes, or because the tick count has no room for the cost. -/
theorem fault_of_step_eq_error {fault : Fault} (h : engine.step s = .error fault s') :
    s.cpu.isHalted = false ∧
      let pc := s.cpu.registers.pc
      let opcode := s.cpu.memory.get pc
      (decode? opcode = none ∧ fault = .unimplementedOpcode opcode pc ∧
        s' = { s with seen := engine.log (.unimplementedOpcode opcode pc) s.seen }) ∨
      (fault = .tickOverflow ∧ UInt64.size ≤ s.cpu.cycles.count.toNat + 7) := by
  cases running : s.cpu.isHalted with
  | true =>
    rw [engine.step_of_isHalted s running] at h
    cases h
  | false =>
    refine ⟨rfl, ?_⟩
    cases decoded : decode? (s.cpu.memory.get s.cpu.registers.pc) with
    | none =>
      rw [engine.step_of_decode?_eq_none s running decoded] at h
      cases h
      exact Or.inl ⟨decoded, rfl, rfl⟩
    | some i =>
      right
      constructor
      · rw [engine.step_eq_settle s running decoded, settle_eq] at h
        split at h
        · cases h
        · cases h
          rfl
      · -- with room for seven ticks the step would have succeeded
        apply Nat.le_of_not_lt
        intro room
        rw [engine.step_of_decode?_eq_some s running decoded room] at h
        cases h

end Engine

end Cpu6502
