import Cpu6502.Proofs.Disassembly
import Cpu6502.Proofs.Execution.Tracing

/-! # What is shown and what is executed

The disassembler and the engine decode memory each in its own way. The one looks bytes up by their
addresses, and the other fetches them from the program counter on. At every address they agree: a
byte of data is shown where the engine refuses the opcode, and otherwise the text is that of the
instruction which is executed, with the operand that it works on and the address that it goes to.
-/

namespace Cpu6502

open Instruction

variable {σ τ : Type}

/-! ## Agreement -/

/-- The text shows a mnemonic and its operand; the instruction after them begins at `next`. -/
inductive Operand.ShownAs (m : Mnemonic) (next : UInt16) : Operand → String → Prop where
  | none : ShownAs m next .none m.name
  | literal (value : UInt8) : ShownAs m next (.literal value) (m.name ++ " #$" ++ Hex.byte value)
  | address (value : UInt8) :
      ShownAs m next (.address value.toUInt16) (m.name ++ " $" ++ Hex.byte value)
  | offset (distance : Int8) :
      ShownAs m next (.offset distance) (m.name ++ " $" ++ Hex.word (branchTarget next distance))

/-- The item at the program counter shows what becomes of the processor `cpu` in the instruction
that the event announces. The operand that is shown is the one to which the mnemonic is applied. A
branch that is taken leads to the address that is shown, and any other instruction to the address
after the item. -/
structure Item.Shows (item : Item) (cpu : Processor) (event : TraceEvent) (cpu' : Processor) :
    Prop where
  mnemonic : event.mnemonic.name.toList <+: (item.text cpu.registers.pc).toList
  operand :
    let next := cpu.registers.pc + UInt16.ofNat item.length
    ∃ operand outcome performed,
      operand.ShownAs event.mnemonic next (item.text cpu.registers.pc) ∧
        event.mnemonic.perform operand (cpu.jump next) = .ok outcome performed ∧
        cpu'.registers = performed.registers ∧ cpu'.flags = performed.flags ∧
        cpu'.memory = performed.memory
  pc : if Manual.taken cpu event.mnemonic then
      item.text cpu.registers.pc = event.mnemonic.name ++ " $" ++ Hex.word cpu'.registers.pc
    else cpu'.registers.pc = cpu.registers.pc + UInt16.ofNat item.length

/-! ## Items -/

namespace Item

/-- Only a byte of data has the text of a byte of data. -/
theorem text_eq_byte_iff {item : Item} {pc : UInt16} {value : UInt8} :
    item.text pc = ".byte $" ++ Hex.byte value ↔ item = .data value := by
  constructor
  · intro h
    cases item with
    | data value' =>
      rw [text, String.append_right_inj] at h
      rw [Hex.byte_injective h]
    | instruction row operand =>
      -- the text begins with a mnemonic
      refine absurd ?_ (not_isPrefix_text pc row operand)
      rw [h, String.toList_append]
      exact ⟨_, List.append_assoc ".byte".toList " $".toList _ |>.symm⟩
  · rintro rfl
    rfl

variable (cpu : Processor)

/-- The item at the program counter, in terms of the byte there. -/
theorem decode_memory :
    decode cpu.memory.bytes cpu.registers.pc =
      match decode? (cpu.memory.get cpu.registers.pc) with
      | some row => .instruction row cpu.operandByte
      | none => .data (cpu.memory.get cpu.registers.pc) := by
  cases decoded : decode? (cpu.memory.get cpu.registers.pc) with
  | none => simp only [decode, Memory.byteAt_bytes, decoded]
  | some row => simp only [decode, Processor.operandByte, Memory.byteAt_bytes, decoded]

theorem shownAs_operand (i : Instruction) :
    (cpu.operand i).ShownAs i.mnemonic (cpu.following i)
      ((instruction i cpu.operandByte).text cpu.registers.pc) := by
  unfold Processor.operand text
  cases hmode : i.mode with
  | implied => simp only [hmode]; exact .none
  | immediate => simp only [hmode]; exact .literal cpu.operandByte
  | zeroPage => simp only [hmode]; exact .address cpu.operandByte
  | relative => simp only [hmode]; exact .offset cpu.operandByte.toInt8

theorem name_prefix_text (row : Instruction) (operand : UInt8) (pc : UInt16) :
    row.mnemonic.name.toList <+: ((instruction row operand).text pc).toList := by
  unfold text
  cases hmode : row.mode with
  | implied => simp only [hmode]; exact List.prefix_rfl
  | immediate | zeroPage | relative =>
    simp only [hmode, String.toList_append, List.append_assoc]
    exact List.prefix_append _ _

/-- The instruction at the program counter is shown as it is executed. -/
theorem shows_next {i : Instruction} (hi : i ∈ table) :
    (instruction i cpu.operandByte).Shows cpu (.capture cpu i) (cpu.next i) := by
  refine ⟨name_prefix_text i _ _, ?_, ?_⟩
  · have hperform := cpu.perform_operand i (accepts_of_mem hi)
    exact ⟨_, _, _, shownAs_operand cpu i, hperform, rfl, rfl, rfl⟩
  · have htaken := cpu.branches_eq_taken i
    show if Manual.taken cpu i.mnemonic then _ else cpu.successor i = cpu.following i
    split
    · rename_i hmanual
      -- a branch is shown with the address that it leads to
      have hbranches : cpu.branches i = true := by
        rw [htaken]
        exact decide_eq_true hmanual
      have hmode := Processor.relative_of_branches hi hbranches
      rw [Processor.next_pc]
      unfold Processor.successor text
      rw [if_pos hbranches]
      simp only [hmode]
      rfl
    · rename_i hmanual
      have hbranches : ¬ cpu.branches i = true := by
        rw [htaken]
        simpa using hmanual
      unfold Processor.successor
      rw [if_neg hbranches]

end Item

/-! ## Steps -/

namespace Engine

/-- The hook is given the event of an instruction and the log its records. -/
theorem observe_withTrace (engine : Engine τ) (hook : TraceEvent → σ → σ) (cpu : Processor)
    (i : Instruction) (seen : σ) (logged : τ) :
    (engine.withTrace hook).observe cpu i (seen, logged) =
      (hook (.capture cpu i) seen, engine.withoutTrace.observe cpu i logged) := by
  have hhook := (Reflects.onlyTrace engine hook).observe cpu i (seen, logged)
  have hlog := (Reflects.withoutTrace engine hook).observe cpu i (seen, logged)
  refine Prod.ext (hhook.trans ?_) hlog
  rw [observe_eq]
  split
  · rfl
  · rfl

/-- The disassembler and the engine agree at every address. Where the disassembler shows a byte of
data, one byte long, the engine refuses that byte; and where it shows anything else, the engine
executes an instruction, of which the hook is given the event, and which is the one shown. -/
theorem step_as_shown (engine : Engine τ) (hook : TraceEvent → σ → σ) (cpu : Processor) (seen : σ)
    (logged : τ) (running : cpu.isHalted = false)
    (room : cpu.cycles.count.toNat + 7 < UInt64.size) :
    let item := Item.decode cpu.memory.bytes cpu.registers.pc
    let text := item.text cpu.registers.pc
    let result := (engine.withTrace hook).step ⟨cpu, (seen, logged)⟩
    (∀ opcode, (text = ".byte $" ++ Hex.byte opcode ∧ item.length = 1) ↔
        ∃ pc s', result = .error (.unimplementedOpcode opcode pc) s') ∧
      ((¬∃ opcode, text = ".byte $" ++ Hex.byte opcode ∧ item.length = 1) →
        ∃ report event cpu' logged',
          result = .ok report ⟨cpu', (hook event seen, logged')⟩ ∧ item.Shows cpu event cpu') := by
  dsimp only
  rw [Item.decode_memory]
  cases decoded : decode? (cpu.memory.get cpu.registers.pc) with
  | none =>
    have hstep := (engine.withTrace hook).step_of_decode?_eq_none ⟨cpu, (seen, logged)⟩ running
      decoded
    rw [hstep]
    constructor
    · intro opcode
      rw [Item.text_eq_byte_iff]
      constructor
      · rintro ⟨hdata, -⟩
        cases hdata
        exact ⟨_, _, rfl⟩
      · rintro ⟨pc, s', hfault⟩
        cases hfault
        exact ⟨rfl, rfl⟩
    · intro hother
      exact absurd ⟨_, rfl, rfl⟩ hother
  | some i =>
    have hstep := (engine.withTrace hook).step_of_decode?_eq_some ⟨cpu, (seen, logged)⟩ running
      decoded room
    rw [hstep, observe_withTrace]
    constructor
    · intro opcode
      rw [Item.text_eq_byte_iff]
      constructor
      · rintro ⟨hdata, -⟩
        cases hdata
      · rintro ⟨pc, s', hfault⟩
        cases hfault
    · intro _
      exact ⟨_, _, _, _, rfl, Item.shows_next cpu (decode?_eq_some decoded).1⟩

/-- A processor about to take a branch, whose opcode stands at the last address and whose operand,
a distance of minus five, at the first. -/
def branchAcrossTheEnd : Processor :=
  { Processor.powerUp 0xFFFF with
    flags := { c := true }
    memory := (Memory.zeroed.set 0xFFFF 0xB0).set 0 0xFB }

theorem step_as_shown_across_the_end :
    (branchAcrossTheEnd.isHalted = false ∧
      branchAcrossTheEnd.cycles.count.toNat + 7 < UInt64.size) ∧
      (Item.decode branchAcrossTheEnd.memory.bytes 0xFFFF).text 0xFFFF = "BCS $FFFC" ∧
      ∃ report event cpu' logged,
        (({} : Engine Unit).withTrace fun event events => events ++ [event]).step
            ⟨branchAcrossTheEnd, ([], ())⟩ = .ok report ⟨cpu', ([event], logged)⟩ ∧
          (Item.decode branchAcrossTheEnd.memory.bytes 0xFFFF).Shows branchAcrossTheEnd event
            cpu' := by
  have hrunning : branchAcrossTheEnd.isHalted = false := rfl
  have hroom : branchAcrossTheEnd.cycles.count.toNat + 7 < UInt64.size := by decide
  have hpc : branchAcrossTheEnd.registers.pc = 0xFFFF := rfl
  have hopcode : branchAcrossTheEnd.memory.get 0xFFFF = 0xB0 := by
    simp [branchAcrossTheEnd, Memory.get_set]
  have hoperand : branchAcrossTheEnd.operandByte = 0xFB := by
    show branchAcrossTheEnd.memory.get 0 = 0xFB
    simp [branchAcrossTheEnd]
  -- the operand is found at the first address
  have hitem : Item.decode branchAcrossTheEnd.memory.bytes 0xFFFF =
      .instruction ⟨0xB0, .bcs, .relative, 2⟩ 0xFB := by
    have hdecode := Item.decode_memory branchAcrossTheEnd
    rw [hpc, hopcode, hoperand] at hdecode
    exact hdecode
  have hother : ¬∃ opcode,
      (Item.decode branchAcrossTheEnd.memory.bytes 0xFFFF).text 0xFFFF =
          ".byte $" ++ Hex.byte opcode ∧
        (Item.decode branchAcrossTheEnd.memory.bytes 0xFFFF).length = 1 := by
    rintro ⟨opcode, htext, -⟩
    rw [Item.text_eq_byte_iff, hitem] at htext
    cases htext
  have hagree := step_as_shown ({} : Engine Unit) (fun event events => events ++ [event])
    branchAcrossTheEnd [] () hrunning hroom
  rw [hpc] at hagree
  refine ⟨⟨hrunning, hroom⟩, ?_, hagree.2 hother⟩
  rw [hitem]
  rfl

end Engine

end Cpu6502
