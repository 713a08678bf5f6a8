import Cpu6502.Proofs.Disassembly
import Cpu6502.Proofs.Execution.Tracing

/-! # What a run leaves alone

Programs may rewrite themselves, so what a run can change cannot be read off the code that was
loaded. But an operand that names a cell is one byte, so every instruction leaves the memory above
page zero alone, and most of the registers and flags with it. `Framed` says this of two states and
of the instructions between them; it holds of one instruction (`framed_instruction`), it is passed
on from instruction to instruction (`Framed.trans`), and so it holds of every course.
-/

namespace Cpu6502

open Instruction

/-! ## Instructions that account for a change -/

/-- The event at an index is that of an instruction with the given mnemonic, which is executed in
the state at that index. -/
def ExecutedAt (states : Nat → Processor) (events : List TraceEvent) (mnemonic : Mnemonic)
    (index : Nat) : Prop :=
  ∃ event, events[index]? = some event ∧ event.Describes (states index) ∧
    event.mnemonic = mnemonic

/-- Between the states `cpu` and `last` the instructions of the events are executed, each in the
state at its index. Whatever differs between the two states has been changed by one of them. -/
structure Framed (cpu : Processor) (states : Nat → Processor) (events : List TraceEvent)
    (last : Processor) : Prop where
  x : last.registers.x = cpu.registers.x
  y : last.registers.y = cpu.registers.y
  sp : last.registers.sp = cpu.registers.sp
  d : last.flags.d = cpu.flags.d
  i : last.flags.i = cpu.flags.i
  above : ∀ address : UInt16, 0x100 ≤ address.toNat →
    last.memory.get address = cpu.memory.get address
  /-- A cell of page zero is changed by storing to the cell that the operand byte names. -/
  stored : ∀ address, last.memory.get address ≠ cpu.memory.get address →
    ∃ index, (ExecutedAt states events .sta index ∨ ExecutedAt states events .inc index) ∧
      address = ((states index).memory.get ((states index).registers.pc + 1)).toUInt16
  v : last.flags.v ≠ cpu.flags.v → ∃ index, ExecutedAt states events .adc index
  b : last.flags.b ≠ cpu.flags.b → ∃ index, ExecutedAt states events .brk index

section
variable {states states' : Nat → Processor} {events events' : List TraceEvent}
  {mnemonic : Mnemonic} {index : Nat} {cpu mid last : Processor}

theorem ExecutedAt.append_left (h : ExecutedAt states events mnemonic index)
    (events' : List TraceEvent) : ExecutedAt states (events ++ events') mnemonic index := by
  obtain ⟨event, hevent, hdescribes, hmnemonic⟩ := h
  refine ⟨event, ?_, hdescribes, hmnemonic⟩
  rw [List.getElem?_append_left (List.getElem?_eq_some_iff.1 hevent).1]
  exact hevent

theorem ExecutedAt.append_right (h : ExecutedAt states' events' mnemonic index)
    (hstates : ∀ index, states' index = states (events.length + index)) :
    ExecutedAt states (events ++ events') mnemonic (events.length + index) := by
  obtain ⟨event, hevent, hdescribes, hmnemonic⟩ := h
  refine ⟨event, ?_, hstates index ▸ hdescribes, hmnemonic⟩
  rw [List.getElem?_append_right (Nat.le_add_right _ _), Nat.add_sub_cancel_left]
  exact hevent

/-- What differs after two parts differs after the first or has changed in the second. -/
theorem Framed.trans (h : Framed cpu states events mid) (h' : Framed mid states' events' last)
    (hstates : ∀ index, states' index = states (events.length + index)) :
    Framed cpu states (events ++ events') last := by
  -- a change is accounted for in the part in which it happens
  have hcases : ∀ {β : Type} [DecidableEq β] {f : Processor → β} {mnemonic : Mnemonic},
      (f mid ≠ f cpu → ∃ index, ExecutedAt states events mnemonic index) →
      (f last ≠ f mid → ∃ index, ExecutedAt states' events' mnemonic index) →
      f last ≠ f cpu → ∃ index, ExecutedAt states (events ++ events') mnemonic index := by
    intro β _ f mnemonic hfirst hsecond hchanged
    by_cases hmid : f mid = f cpu
    · obtain ⟨index, hindex⟩ := hsecond (hmid ▸ hchanged)
      exact ⟨events.length + index, hindex.append_right hstates⟩
    · obtain ⟨index, hindex⟩ := hfirst hmid
      exact ⟨index, hindex.append_left events'⟩
  constructor
  · exact h'.x.trans h.x
  · exact h'.y.trans h.y
  · exact h'.sp.trans h.sp
  · exact h'.d.trans h.d
  · exact h'.i.trans h.i
  · intro address haddress
    exact (h'.above address haddress).trans (h.above address haddress)
  · intro address hchanged
    by_cases hmid : mid.memory.get address = cpu.memory.get address
    · obtain ⟨index, hexecuted, haddress⟩ := h'.stored address (hmid ▸ hchanged)
      refine ⟨events.length + index, ?_, hstates index ▸ haddress⟩
      exact hexecuted.imp (·.append_right hstates) (·.append_right hstates)
    · obtain ⟨index, hexecuted, haddress⟩ := h.stored address hmid
      refine ⟨index, ?_, haddress⟩
      exact hexecuted.imp (·.append_left events') (·.append_left events')
  · exact hcases (f := fun cpu => cpu.flags.v) h.v h'.v
  · exact hcases (f := fun cpu => cpu.flags.b) h.b h'.b

/-- Where nothing is executed, nothing that counts has changed. -/
theorem framed_nil (states : Nat → Processor) (cpu : Processor) (target : UInt16) :
    Framed (cpu.jump target) states [] cpu := by
  constructor
  · rfl
  · rfl
  · rfl
  · rfl
  · rfl
  · intro address _
    rfl
  · intro address hchanged
    exact absurd rfl hchanged
  · intro hchanged
    exact absurd rfl hchanged
  · intro hchanged
    exact absurd rfl hchanged

end

/-! ## One instruction -/

namespace Processor

variable {cpu last : Processor} {i : Instruction}

/-- Only two mnemonics write to memory, and they write to the cell of the operand. -/
theorem effect_get {address : UInt16}
    (h : (cpu.effect i).memory.get address ≠ cpu.memory.get address) :
    (i.mnemonic = .sta ∨ i.mnemonic = .inc) ∧ address = cpu.operandCell := by
  unfold effect at h
  cases hm : i.mnemonic with
  | sta | inc =>
    simp only [hm, Memory.get_set] at h
    refine ⟨by simp, ?_⟩
    split at h
    · rename_i heq
      exact heq.symm
    · exact absurd rfl h
  | _ =>
    simp only [hm] at h
    exact absurd rfl h

theorem effect_v (h : (cpu.effect i).flags.v ≠ cpu.flags.v) : i.mnemonic = .adc := by
  unfold effect at h
  cases hm : i.mnemonic with
  | adc => rfl
  | _ =>
    simp only [hm] at h
    exact absurd rfl h

theorem effect_b (h : (cpu.effect i).flags.b ≠ cpu.flags.b) : i.mnemonic = .brk := by
  unfold effect at h
  cases hm : i.mnemonic with
  | brk => rfl
  | _ =>
    simp only [hm] at h
    exact absurd rfl h

/-- An instruction accounts for the changes that it makes, whether or not it is paid for. -/
theorem framed_instruction (running : cpu.isHalted = false)
    (decoded : decode? (cpu.memory.get cpu.registers.pc) = some i)
    (hregisters : last.registers = (cpu.next i).registers)
    (hflags : last.flags = (cpu.effect i).flags) (hmemory : last.memory = (cpu.effect i).memory) :
    Framed cpu cpu.after [.capture cpu i] last := by
  have hexecuted : ExecutedAt cpu.after [.capture cpu i] i.mnemonic 0 :=
    ⟨.capture cpu i, rfl, Engine.describes_capture (s := ⟨cpu, ()⟩) running decoded, rfl⟩
  constructor
  · rw [hregisters, next_x]
  · rw [hregisters, next_y]
  · rw [hregisters, next_sp]
  · rw [hflags, ← next_flags, next_d]
  · rw [hflags, ← next_flags, next_i]
  · intro address haddress
    rw [hmemory, ← next_memory, next_get cpu i haddress]
  · intro address hchanged
    rw [hmemory] at hchanged
    obtain ⟨hmnemonic, rfl⟩ := effect_get hchanged
    refine ⟨0, ?_, rfl⟩
    rcases hmnemonic with hmnemonic | hmnemonic
    · exact Or.inl (hmnemonic ▸ hexecuted)
    · exact Or.inr (hmnemonic ▸ hexecuted)
  · intro hchanged
    rw [hflags] at hchanged
    exact ⟨0, effect_v hchanged ▸ hexecuted⟩
  · intro hchanged
    rw [hflags] at hchanged
    exact ⟨0, effect_b hchanged ▸ hexecuted⟩

end Processor

/-! ## Runs -/

namespace Engine

variable {σ : Type} {engine : Engine σ} {s t : Session σ} {events : List TraceEvent}

/-- Instructions that are executed one after another account for their changes together. -/
theorem Executes.framed (h : engine.Executes s events t) :
    Framed s.cpu s.cpu.after events t.cpu := by
  induction h with
  | done s => exact framed_nil s.cpu.after s.cpu s.cpu.registers.pc
  | @step s s' t i report events running decoded first rest ih =>
    have hstepped := stepped_eq first
    obtain ⟨i', decoded', -, rfl, -⟩ := executed_of_step_eq_ok running first
    rw [decoded] at decoded'
    cases decoded'
    have hfirst : Framed s.cpu s.cpu.after [.capture s.cpu i] (s.cpu.next i) :=
      s.cpu.framed_instruction running decoded rfl rfl rfl
    refine hfirst.trans ih ?_
    intro index
    rw [Processor.after_add]
    show _ = s.cpu.stepped.after index
    rw [hstepped]

/-- The instruction for which the tick count has no room has been performed all the same. -/
theorem framed_of_overflow {s s' : Session (List TraceEvent)}
    (h : recorder.step s = .error .tickOverflow s') :
    ∃ event, s'.seen = s.seen ++ [event] ∧ Framed s.cpu s.cpu.after [event] s'.cpu := by
  have running := (fault_of_step_eq_error h).1
  cases decoded : decode? (s.cpu.memory.get s.cpu.registers.pc) with
  | none =>
    rw [recorder.step_of_decode?_eq_none s running decoded] at h
    cases h
  | some i =>
    refine ⟨.capture s.cpu i, ?_⟩
    rw [recorder.step_eq_settle s running decoded, settle_eq] at h
    split at h
    · cases h
    · cases h
      exact ⟨rfl, s.cpu.framed_instruction running decoded rfl rfl rfl⟩

end Engine

namespace Processor

open Engine

/-- The events of a course account for every change. -/
theorem framed_course (cpu : Processor) (origin : UInt16) (limit : Limit) :
    Framed (cpu.jump origin) (cpu.jump origin).after (cpu.course origin limit).events
      (cpu.course origin limit).cpu := by
  unfold course
  cases running : cpu.isHalted with
  | true =>
    rw [recorder.run_of_isHalted origin limit ⟨cpu, []⟩ running]
    exact framed_nil (cpu.jump origin).after cpu origin
  | false =>
    obtain ⟨events, t, account⟩ := recorder.exists_account origin limit ⟨cpu, []⟩ running
    have hframed := account.executes.framed
    have hafter := account.executes.after.1
    have hseen : t.seen = events := seen_of_executes account.executes
    have hends := account.ends
    generalize recorder.run origin limit ⟨cpu, []⟩ = result at hends
    rw [← hseen] at hframed hafter
    cases hends with
    | halted halted => exact hframed
    | limitReached running' reached => exact hframed
    | @failed fault s' unreached failure =>
      rcases fault_of_step_eq_error failure with ⟨-, ⟨-, rfl, rfl⟩ | ⟨rfl, -⟩⟩
      · exact hframed
      · obtain ⟨event, hevent, hlast⟩ := framed_of_overflow failure
        unfold Course.ofResult
        dsimp only
        rw [hevent]
        refine hframed.trans hlast ?_
        intro index
        rw [hafter, ← after_add]

/-- Whoever watches a run, and however it ends, it leaves the processor of its course. Of the
registers only the accumulator and the program counter can differ from those before; the memory
above page zero, and the flags D and I, stay as they are; a cell of page zero can only have been
changed by an instruction of the course that names it, the flag V by an ADC and the flag B by a BRK.
A listing that shows no byte of page zero is the same before and after. -/
theorem run_framed {σ : Type} (engine : Engine σ) (s : Session σ) (origin : UInt16)
    (limit : Limit) :
    let course := s.cpu.course origin limit
    (∃ seen, engine.run origin limit s = course.result seen) ∧
      Framed s.cpu (s.cpu.jump origin).after course.events course.cpu ∧
      ∀ start length,
        (∀ address, Visits s.cpu.memory.bytes start length address → 0x100 ≤ address.toNat) →
          listing course.cpu.memory.bytes start length =
            listing s.cpu.memory.bytes start length := by
  have hframed := s.cpu.framed_course origin limit
  refine ⟨engine.exists_run_eq_result origin limit s, ?_, ?_⟩
  · exact ⟨hframed.x, hframed.y, hframed.sp, hframed.d, hframed.i, hframed.above, hframed.stored,
      hframed.v, hframed.b⟩
  · intro start length habove
    apply listing_congr
    intro address hvisits
    rw [Memory.byteAt_bytes, Memory.byteAt_bytes]
    exact hframed.above address (habove address hvisits)

/-- An INC at the end of memory, whose cell lies in page zero. -/
def countAtTheEnd : Session Unit where
  cpu := { powerUp 0xFFFE with memory := (Memory.zeroed.set 0xFFFE 0xE6).set 0xFFFF 0x10 }
  seen := ()

theorem run_framed_of_count :
    (∀ address, Visits countAtTheEnd.cpu.memory.bytes 0xFFFE 2 address → 0x100 ≤ address.toNat) ∧
      listing (countAtTheEnd.cpu.course 0xFFFE (.steps 1)).cpu.memory.bytes 0xFFFE 2 =
        listing countAtTheEnd.cpu.memory.bytes 0xFFFE 2 := by
  have hopcode : decode? (countAtTheEnd.cpu.memory.get 0xFFFE) =
      some ⟨0xE6, .inc, .zeroPage, 5⟩ := by
    simp [countAtTheEnd, Memory.get_set]
    rfl
  have hlength : (Item.decode countAtTheEnd.cpu.memory.bytes 0xFFFE).length = 2 := by
    rw [← Memory.byteAt_bytes] at hopcode
    exact Item.length_of_decode? hopcode
  -- the instruction is the only item, and its two bytes are the last of memory
  have hvisits : ∀ code : Array UInt8, (Item.decode code 0xFFFE).length = 2 →
      ∀ address, Visits code 0xFFFE 2 address → 0x100 ≤ address.toNat := by
    rintro code hitem address ⟨pc, hpc, index, hindex, rfl⟩
    simp only [itemStarts, itemStartsFrom, hitem] at hpc
    have hstart : pc = 0xFFFE := by simpa using hpc
    subst hstart
    rw [hitem] at hindex
    have hcases : index = 0 ∨ index = 1 := by omega
    rcases hcases with rfl | rfl
    · decide
    · decide
  have habove := hvisits countAtTheEnd.cpu.memory.bytes hlength
  obtain ⟨-, -, hlisting⟩ := run_framed ({} : Engine Unit) countAtTheEnd 0xFFFE (.steps 1)
  exact ⟨habove, hlisting 0xFFFE 2 habove⟩

end Processor

end Cpu6502
