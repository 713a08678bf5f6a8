import Cpu6502.Proofs.Execution.Arithmetic
import Cpu6502.Proofs.Execution.Transition

/-! # The instruction manual

What each instruction does, written with numbers and truth values as a manual writes it, and with
every part of the state that it leaves alone. The engine follows the manual, and since the manual
settles every part of the state there is no other state that does.
-/

namespace Cpu6502

open Instruction

/-! ## The manual -/

namespace Manual

/-- The signed value of a byte. -/
def signed (x : UInt8) : Int :=
  if x.toNat < 128 then x.toNat else x.toNat - 256

/-- Bit 7 of a number. -/
def bit7 (n : Nat) : Bool :=
  n.testBit 7

/-- The byte at an address that may have passed the last one. -/
def byteAt (cpu : Processor) (address : Nat) : UInt8 :=
  cpu.memory.get (UInt16.ofNat (address % 65536))

/-- The byte that follows the opcode. -/
def operand (cpu : Processor) : UInt8 :=
  byteAt cpu (cpu.registers.pc.toNat + 1)

/-- The byte `M` of an instruction: the operand itself in the immediate mode, and what the cell of
page zero holds that it names otherwise. -/
def value (cpu : Processor) (mode : AddressingMode) : UInt8 :=
  if mode = .immediate then operand cpu else byteAt cpu (operand cpu).toNat

/-- Holds of a branch that is taken. -/
def taken (cpu : Processor) (mnemonic : Mnemonic) : Prop :=
  mnemonic = .bcc ∧ cpu.flags.c = false ∨ mnemonic = .bcs ∧ cpu.flags.c = true

instance (cpu : Processor) (mnemonic : Mnemonic) : Decidable (taken cpu mnemonic) :=
  inferInstanceAs (Decidable (_ ∨ _))

/-- The address of the next instruction. -/
def target (cpu : Processor) (i : Instruction) : Int :=
  if taken cpu i.mnemonic then (cpu.registers.pc.toNat + 2 + signed (operand cpu)) % 65536
  else (cpu.registers.pc.toNat + i.size) % 65536

/-- The ticks of an instruction: its base cost, one more for a branch that is taken, and another
if that leads out of the page of the following instruction. -/
def ticks (cpu : Processor) (i : Instruction) : Nat :=
  i.cycles.toNat +
    if taken cpu i.mnemonic then
      if target cpu i / 256 = (cpu.registers.pc.toNat + 2) % 65536 / 256 then 1 else 2
    else 0

/-- The state `next` is the one that the instruction `i` leaves. -/
structure Follows (cpu : Processor) (i : Instruction) (next : Processor) : Prop where
  pc : (next.registers.pc.toNat : Int) = target cpu i
  clock : next.cycles.count.toNat = cpu.cycles.count.toNat + ticks cpu i
  state : next.state = if i.mnemonic = .brk then .halted else .running
  /-- An addition spreads its sum over the accumulator and the carry. -/
  sum : i.mnemonic = .adc →
    next.registers.a.toNat + 256 * next.flags.c.toNat =
      cpu.registers.a.toNat + (value cpu i.mode).toNat + cpu.flags.c.toNat
  accumulator : i.mnemonic ≠ .adc →
    next.registers.a = if i.mnemonic = .lda then value cpu i.mode else cpu.registers.a
  carry : i.mnemonic ≠ .adc →
    next.flags.c =
      match i.mnemonic with
      | .cmp => decide ((value cpu i.mode).toNat ≤ cpu.registers.a.toNat)
      | .clc => false
      | .sec => true
      | _ => cpu.flags.c
  overflow : next.flags.v =
    if i.mnemonic = .adc then
      let sum := signed cpu.registers.a + signed (value cpu i.mode) + cpu.flags.c.toNat
      decide (¬ (-128 ≤ sum ∧ sum ≤ 127))
    else cpu.flags.v
  zero : next.flags.z =
    match i.mnemonic with
    | .lda | .adc => decide (next.registers.a = 0)
    | .cmp => decide (cpu.registers.a = value cpu i.mode)
    | .inc => decide (((value cpu i.mode).toNat + 1) % 256 = 0)
    | _ => cpu.flags.z
  negative : next.flags.n =
    match i.mnemonic with
    | .lda | .adc => bit7 next.registers.a.toNat
    | .cmp =>
      bit7 (((cpu.registers.a.toNat : Int) - (value cpu i.mode).toNat) % 256).toNat
    | .inc => bit7 (((value cpu i.mode).toNat + 1) % 256)
    | _ => cpu.flags.n
  breakFlag : next.flags.b = (cpu.flags.b || decide (i.mnemonic = .brk))
  cells : ∀ address : UInt16,
    (next.memory.get address).toNat =
      if address.toNat = (operand cpu).toNat then
        match i.mnemonic with
        | .sta => cpu.registers.a.toNat
        | .inc => ((value cpu i.mode).toNat + 1) % 256
        | _ => (cpu.memory.get address).toNat
      else (cpu.memory.get address).toNat
  x : next.registers.x = cpu.registers.x
  y : next.registers.y = cpu.registers.y
  sp : next.registers.sp = cpu.registers.sp
  decimal : next.flags.d = cpu.flags.d
  interrupt : next.flags.i = cpu.flags.i

/-! ## What the manual settles -/

/-- No two states follow the manual. -/
theorem Follows.unique {cpu next next' : Processor} {i : Instruction}
    (h : Follows cpu i next) (h' : Follows cpu i next') : next = next' := by
  have hsum : next.registers.a = next'.registers.a ∧ next.flags.c = next'.flags.c := by
    by_cases hadc : i.mnemonic = .adc
    · -- the sum has one split into a byte and a carry
      have hsame := (h.sum hadc).trans (h'.sum hadc).symm
      have ha := next.registers.a.toNat_lt
      have ha' := next'.registers.a.toNat_lt
      constructor
      · apply UInt8.toNat_inj.1
        omega
      · cases hc : next.flags.c <;> cases hc' : next'.flags.c <;>
          simp only [hc, hc', Bool.toNat_true, Bool.toNat_false] at hsame ⊢ <;> omega
    · exact ⟨(h.accumulator hadc).trans (h'.accumulator hadc).symm,
        (h.carry hadc).trans (h'.carry hadc).symm⟩
  -- N and Z are stated in terms of the new accumulator, so they come after it
  obtain ⟨ha, hc⟩ := hsum
  have hz : next.flags.z = next'.flags.z := by
    rw [h.zero, h'.zero, ha]
  have hn : next.flags.n = next'.flags.n := by
    rw [h.negative, h'.negative, ha]
  have hpc : next.registers.pc = next'.registers.pc := by
    have hsame := h.pc.trans h'.pc.symm
    apply UInt16.toNat_inj.1
    omega
  have hmemory : next.memory = next'.memory := by
    apply Memory.ext_get
    intro address
    exact UInt8.toNat_inj.1 ((h.cells address).trans (h'.cells address).symm)
  have hcycles : next.cycles = next'.cycles := by
    apply Ticks.ext
    exact UInt64.toNat_inj.1 (h.clock.trans h'.clock.symm)
  have hregisters : next.registers = next'.registers := by
    have hx := h.x.trans h'.x.symm
    have hy := h.y.trans h'.y.symm
    have hsp := h.sp.trans h'.sp.symm
    exact Registers.ext ha hx hy hsp hpc
  have hflags : next.flags = next'.flags := by
    have hv := h.overflow.trans h'.overflow.symm
    have hb := h.breakFlag.trans h'.breakFlag.symm
    have hd := h.decimal.trans h'.decimal.symm
    have hi := h.interrupt.trans h'.interrupt.symm
    exact Flags.ext hn hv hb hd hi hz hc
  have hstate := h.state.trans h'.state.symm
  exact Processor.ext hregisters hflags hmemory hcycles hstate

end Manual

/-! ## Agreement with the engine -/

namespace Processor

variable {cpu : Processor} {i : Instruction}

theorem operandByte_eq_operand (cpu : Processor) : cpu.operandByte = Manual.operand cpu := by
  unfold operandByte Manual.operand Manual.byteAt
  congr 1
  apply UInt16.toNat_inj.1
  rw [UInt16.toNat_add, UInt16.toNat_ofNat', UInt16.toNat_one]
  omega

theorem get_operandCell (cpu : Processor) :
    cpu.memory.get cpu.operandCell = Manual.byteAt cpu (Manual.operand cpu).toNat := by
  unfold operandCell Manual.byteAt
  rw [operandByte_eq_operand]
  congr 1
  apply UInt16.toNat_inj.1
  have hlt := (Manual.operand cpu).toNat_lt
  rw [UInt8.toNat_toUInt16, UInt16.toNat_ofNat']
  omega

theorem branches_eq_taken (cpu : Processor) (i : Instruction) :
    cpu.branches i = decide (Manual.taken cpu i.mnemonic) := by
  unfold branches Manual.taken
  cases i.mnemonic <;> simp

theorem signed_eq_toInt (x : UInt8) : Manual.signed x = x.toInt8.toInt := by
  rw [toInt_toInt8]
  rfl

theorem value_eq_operandValue (cpu : Processor) (hmode : i.mode = .immediate ∨ i.mode = .zeroPage) :
    Manual.value cpu i.mode = cpu.operandValue i := by
  unfold Manual.value operandValue
  rw [get_operandCell, operandByte_eq_operand]
  rcases hmode with hmode | hmode <;> simp [hmode]

theorem size_of_branches (hi : i ∈ table) (htaken : cpu.branches i = true) : i.size = 2 := by
  unfold Instruction.size
  rw [relative_of_branches hi htaken]
  rfl

theorem size_le_two (i : Instruction) : i.size ≤ 2 := by
  unfold Instruction.size
  cases i.mode <;> decide

theorem toNat_following (cpu : Processor) (i : Instruction) :
    (cpu.following i).toNat = (cpu.registers.pc.toNat + i.size) % 65536 := by
  have := size_le_two i
  unfold following
  rw [UInt16.toNat_add, UInt16.toNat_ofNat']
  omega

theorem toNat_successor (cpu : Processor) (hi : i ∈ table) :
    ((cpu.successor i).toNat : Int) = Manual.target cpu i := by
  have hfollowing := cpu.toNat_following i
  unfold successor Manual.target
  by_cases htaken : cpu.branches i = true
  · -- the manual adds the distance to PC + 2 and the engine to PC + size
    have hmanual : Manual.taken cpu i.mnemonic := by
      simpa [branches_eq_taken] using htaken
    have hsize := size_of_branches hi htaken
    rw [if_pos htaken, if_pos hmanual, toNat_branchTarget, operandByte_eq_operand, signed_eq_toInt]
    omega
  · have hmanual : ¬ Manual.taken cpu i.mnemonic := by
      simpa [branches_eq_taken] using htaken
    rw [if_neg htaken, if_neg hmanual]
    omega

theorem toNat_cost (hi : i ∈ table) : (cpu.cost i).toNat = Manual.ticks cpu i := by
  have htarget := cpu.toNat_successor hi
  have hfollowing := cpu.toNat_following i
  rw [cpu.cost_toNat hi]
  unfold penalty Manual.ticks
  by_cases htaken : cpu.branches i = true
  · have hmanual : Manual.taken cpu i.mnemonic := by
      simpa [branches_eq_taken] using htaken
    rw [size_of_branches hi htaken] at hfollowing
    rw [if_pos htaken, if_pos hmanual, ← htarget]
    by_cases hpage : (cpu.registers.pc.toNat + 2) % 65536 / 256 = (cpu.successor i).toNat / 256
    · have hcrossed : pageCrossed (cpu.following i) (cpu.successor i) = false := by
        rw [pageCrossed_eq, hfollowing]
        exact decide_eq_false (not_not_intro hpage)
      rw [hcrossed, if_neg Bool.false_ne_true, if_pos (by omega)]
      rfl
    · have hcrossed : pageCrossed (cpu.following i) (cpu.successor i) = true := by
        rw [pageCrossed_eq, hfollowing]
        exact decide_eq_true hpage
      rw [hcrossed, if_pos rfl, if_neg (by omega)]
      rfl
  · have hmanual : ¬ Manual.taken cpu i.mnemonic := by
      simpa [branches_eq_taken] using htaken
    rw [if_neg htaken, if_neg hmanual]
    rfl

/-- The instructions that read a byte have it from one of the two modes that name one. -/
theorem value_of_reads (cpu : Processor) (hi : i ∈ table)
    (hreads : i.mnemonic ∈ [.lda, .adc, .cmp, .inc]) :
    Manual.value cpu i.mode = cpu.operandValue i := by
  apply cpu.value_eq_operandValue
  have hmode : ∀ i ∈ table, i.mnemonic ∈ [.lda, .adc, .cmp, .inc] →
      i.mode = .immediate ∨ i.mode = .zeroPage := by decide
  exact hmode i hi hreads

theorem value_of_inc (cpu : Processor) (hi : i ∈ table) (hinc : i.mnemonic = .inc) :
    Manual.value cpu i.mode = cpu.memory.get cpu.operandCell := by
  have haccepts := accepts_of_mem hi
  rw [cpu.value_of_reads hi (by simp [hinc])]
  simp only [hinc, Mnemonic.accepts, decide_eq_true_eq] at haccepts
  unfold operandValue
  rw [if_pos haccepts]

theorem toNat_add_one (x : UInt8) : (x + 1).toNat = (x.toNat + 1) % 256 :=
  UInt8.toNat_add x 1

theorem next_sum (hi : i ∈ table) (hadc : i.mnemonic = .adc) :
    (cpu.next i).registers.a.toNat + 256 * (cpu.next i).flags.c.toNat =
      cpu.registers.a.toNat + (Manual.value cpu i.mode).toNat + cpu.flags.c.toNat := by
  have heffect : cpu.effect i = cpu.addWithCarry (cpu.operandValue i) := by
    unfold effect
    rw [hadc]
  rw [next_a, next_flags, heffect, cpu.value_of_reads hi (by simp [hadc])]
  exact cpu.addWithCarry_sum _

theorem next_accumulator (hi : i ∈ table) (hadc : i.mnemonic ≠ .adc) :
    (cpu.next i).registers.a =
      if i.mnemonic = .lda then Manual.value cpu i.mode else cpu.registers.a := by
  have hvalue := cpu.value_of_reads hi
  rw [next_a]
  unfold effect
  cases hm : i.mnemonic with
  | adc => exact absurd hm hadc
  | lda =>
    rw [hvalue (by simp [hm])]
    rfl
  | _ => rfl

theorem next_carry (hi : i ∈ table) (hadc : i.mnemonic ≠ .adc) :
    (cpu.next i).flags.c =
      match i.mnemonic with
      | .cmp => decide ((Manual.value cpu i.mode).toNat ≤ cpu.registers.a.toNat)
      | .clc => false
      | .sec => true
      | _ => cpu.flags.c := by
  have hvalue := cpu.value_of_reads hi
  rw [next_flags]
  unfold effect
  cases hm : i.mnemonic with
  | adc => exact absurd hm hadc
  | cmp =>
    rw [hvalue (by simp [hm])]
    exact cpu.compare_c _
  | _ => rfl

theorem next_overflow (hi : i ∈ table) :
    (cpu.next i).flags.v =
      if i.mnemonic = .adc then
        let sum := Manual.signed cpu.registers.a + Manual.signed (Manual.value cpu i.mode) +
          cpu.flags.c.toNat
        decide (¬ (-128 ≤ sum ∧ sum ≤ 127))
      else cpu.flags.v := by
  have hvalue := cpu.value_of_reads hi
  rw [next_flags]
  unfold effect
  cases hm : i.mnemonic with
  | adc =>
    rw [hvalue (by simp [hm]), signed_eq_toInt, signed_eq_toInt]
    exact cpu.addWithCarry_v _
  | _ => rfl

theorem next_zero (hi : i ∈ table) :
    (cpu.next i).flags.z =
      match i.mnemonic with
      | .lda | .adc => decide ((cpu.next i).registers.a = 0)
      | .cmp => decide (cpu.registers.a = Manual.value cpu i.mode)
      | .inc => decide (((Manual.value cpu i.mode).toNat + 1) % 256 = 0)
      | _ => cpu.flags.z := by
  have hvalue := cpu.value_of_reads hi
  have hinc := cpu.value_of_inc hi
  rw [next_flags, next_a]
  unfold effect
  cases hm : i.mnemonic with
  | cmp =>
    rw [hvalue (by simp [hm])]
    exact cpu.compare_z _
  | inc =>
    have hsum := toNat_add_one (cpu.memory.get cpu.operandCell)
    rw [hinc hm, ← hsum]
    exact decide_eq_decide.2 UInt8.toNat_inj.symm
  | _ => rfl

theorem next_negative (hi : i ∈ table) :
    (cpu.next i).flags.n =
      match i.mnemonic with
      | .lda | .adc => Manual.bit7 (cpu.next i).registers.a.toNat
      | .cmp =>
        Manual.bit7
          (((cpu.registers.a.toNat : Int) - (Manual.value cpu i.mode).toNat) % 256).toNat
      | .inc => Manual.bit7 (((Manual.value cpu i.mode).toNat + 1) % 256)
      | _ => cpu.flags.n := by
  have hvalue := cpu.value_of_reads hi
  have hinc := cpu.value_of_inc hi
  rw [next_flags, next_a]
  unfold effect
  cases hm : i.mnemonic with
  | lda => exact Flags.withResult_n _ _
  | adc => exact Flags.withResult_n _ _
  | cmp =>
    rw [hvalue (by simp [hm])]
    exact cpu.compare_n _
  | inc =>
    rw [hinc hm, ← toNat_add_one]
    exact Flags.withResult_n _ _
  | _ => rfl

theorem next_cells (hi : i ∈ table) (address : UInt16) :
    ((cpu.next i).memory.get address).toNat =
      if address.toNat = (Manual.operand cpu).toNat then
        match i.mnemonic with
        | .sta => cpu.registers.a.toNat
        | .inc => ((Manual.value cpu i.mode).toNat + 1) % 256
        | _ => (cpu.memory.get address).toNat
      else (cpu.memory.get address).toNat := by
  have hinc := cpu.value_of_inc hi
  have hcell : cpu.operandCell = address ↔ address.toNat = (Manual.operand cpu).toNat := by
    unfold operandCell
    rw [operandByte_eq_operand, ← UInt16.toNat_inj, UInt8.toNat_toUInt16, eq_comm]
  rw [next_memory]
  unfold effect
  -- only the cell that the operand names can change, and only STA and INC change it
  by_cases haddress : address.toNat = (Manual.operand cpu).toNat
  · obtain rfl := hcell.2 haddress
    rw [if_pos haddress]
    cases hm : i.mnemonic with
    | sta => simp only [Memory.get_set_self]
    | inc =>
      rw [hinc hm, ← toNat_add_one]
      simp only [Memory.get_set_self]
    | _ => rfl
  · have hother := mt hcell.1 haddress
    rw [if_neg haddress]
    cases i.mnemonic with
    | sta | inc => simp only [Memory.get_set, if_neg hother]
    | _ => rfl

theorem next_follows (hi : i ∈ table) (running : cpu.state = .running)
    (room : cpu.cycles.count.toNat + 7 < UInt64.size) : Manual.Follows cpu i (cpu.next i) where
  pc := cpu.toNat_successor hi
  clock := by rw [next_cycles_toNat hi room, toNat_cost hi]
  state := by rw [next_state, running]
  sum := next_sum hi
  accumulator := next_accumulator hi
  carry := next_carry hi
  overflow := next_overflow hi
  zero := next_zero hi
  negative := next_negative hi
  breakFlag := by
    rw [next_flags]
    unfold effect
    cases i.mnemonic <;> simp <;> rfl
  cells := next_cells hi
  x := cpu.next_x i
  y := cpu.next_y i
  sp := cpu.next_sp i
  decimal := cpu.next_d i
  interrupt := cpu.next_i i

theorem report_eq (cpu : Processor) (hi : i ∈ table) :
    cpu.report i =
      if i.mnemonic = .brk then .halted
      else .executed (UInt32.ofNat (Manual.ticks cpu i)) := by
  unfold report
  rw [← toNat_cost hi, UInt32.ofNat_toNat]

end Processor

/-- A step of a running processor leads to the state that the manual prescribes, and reports the
ticks that the manual counts. -/
theorem Engine.step_follows_manual {σ : Type} (engine : Engine σ) (session : Session σ)
    (i : Instruction) (running : session.cpu.isHalted = false)
    (decoded : decode? (session.cpu.memory.get session.cpu.registers.pc) = some i)
    (room : session.cpu.cycles.count.toNat + 7 < UInt64.size) :
    ∃ next seen,
      engine.step session =
        .ok (if i.mnemonic = .brk then .halted
          else .executed (UInt32.ofNat (Manual.ticks session.cpu i))) ⟨next, seen⟩ ∧
      ∀ cpu, Manual.Follows session.cpu i cpu ↔ cpu = next := by
  have hi := (decode?_eq_some decoded).1
  have hstep := engine.step_of_decode?_eq_some session running decoded room
  rw [session.cpu.report_eq hi] at hstep
  have hrunning := Processor.isHalted_eq_false_iff.1 running
  have hfollows := Processor.next_follows hi hrunning room
  refine ⟨_, _, hstep, ?_⟩
  intro cpu
  -- the next state follows the manual, and no other state does
  constructor
  · intro hcpu
    exact hcpu.unique hfollows
  · rintro rfl
    exact hfollows

/-- A processor about to add the cell `$10` to its accumulator. The opcode stands at the last
address and the operand at the first. -/
def Manual.addAcrossTheEnd : Processor :=
  { Processor.powerUp 0xFFFF with
    registers := { Registers.powerUp 0xFFFF with a := 0x50 }
    flags := { c := true }
    memory := ((Memory.zeroed.set 0xFFFF 0x65).set 0 0x10).set 0x10 0x50 }

theorem Engine.step_follows_manual_across_the_end :
    (Manual.addAcrossTheEnd.isHalted = false ∧
      decode? (Manual.addAcrossTheEnd.memory.get Manual.addAcrossTheEnd.registers.pc) =
        some ⟨0x65, .adc, .zeroPage, 3⟩ ∧
      Manual.addAcrossTheEnd.cycles.count.toNat + 7 < UInt64.size) ∧
    ∃ next seen,
      ({} : Engine Unit).step ⟨Manual.addAcrossTheEnd, ()⟩ =
        .ok (.executed 3) ⟨next, seen⟩ ∧
      ∀ cpu, Manual.Follows Manual.addAcrossTheEnd ⟨0x65, .adc, .zeroPage, 3⟩ cpu ↔
        cpu = next := by
  have hrunning : Manual.addAcrossTheEnd.isHalted = false := rfl
  have hdecoded :
      decode? (Manual.addAcrossTheEnd.memory.get Manual.addAcrossTheEnd.registers.pc) =
        some ⟨0x65, .adc, .zeroPage, 3⟩ := by
    simp [Manual.addAcrossTheEnd, Registers.powerUp, Memory.get_set]
    rfl
  have hroom : Manual.addAcrossTheEnd.cycles.count.toNat + 7 < UInt64.size := by decide
  exact ⟨⟨hrunning, hdecoded, hroom⟩,
    Engine.step_follows_manual {} ⟨Manual.addAcrossTheEnd, ()⟩ _ hrunning hdecoded hroom⟩

end Cpu6502
