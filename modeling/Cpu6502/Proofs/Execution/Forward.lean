import Cpu6502.Proofs.Execution.Halting
import Cpu6502.Proofs.Execution.StraightLine

/-! # Programs that branch forward only

A program in which no byte that could be executed as a branch is followed by a negative distance
comes to an end, even if it is executed from the middle of its instructions. As long as the program
counter stands inside the program it rises with every instruction, and behind the program the cells
that a branch can reach hold BRK. `Ahead` says where the program counter stands and what the cells
hold; every instruction inside the program leaves it further ahead (`Ahead.next`), so a run is over
after one instruction for each byte and a BRK (`branches_forward_stops`).
-/

namespace Cpu6502

open Instruction

/-- Every byte that is the opcode of a branch, wherever it stands, is followed by a distance that is
not negative, if it is followed by a byte. -/
def BranchesForward (program : List UInt8) : Prop :=
  ∀ pair ∈ program.zip program.tail, pair.1 = 0x90 ∨ pair.1 = 0xB0 → pair.2 < 0x80

instance (program : List UInt8) : Decidable (BranchesForward program) :=
  List.decidableBAll _ (program.zip program.tail)

/-- The program and the zeroed cells behind it that a branch at its end can reach. -/
def withTail (program : List UInt8) : List UInt8 :=
  program ++ List.replicate 128 0

/-- A limit that allows one instruction for each of `length` bytes and a BRK. -/
def Limit.Allows (length : Nat) : Limit → Prop
  | .steps count => length + 1 ≤ count
  | .cycles count => 5 * length + 7 ≤ count

/-- The program counter of a running processor stands `position` bytes after the start of a program,
and the program and the cells behind it are as they were loaded. -/
structure Ahead (program : List UInt8) (start position : Nat) (cpu : Processor) : Prop where
  running : cpu.isHalted = false
  pc : cpu.registers.pc = UInt16.ofNat (start + position)
  position_lt : position < program.length + 128
  holds : Holds cpu.memory.bytes (UInt16.ofNat start) (withTail program)

section
variable {program : List UInt8} {start position : Nat} {cpu : Processor} {i : Instruction}

theorem length_withTail (program : List UInt8) :
    (withTail program).length = program.length + 128 := by
  unfold withTail
  rw [List.length_append, List.length_replicate]

/-- Behind the program there are zeros. -/
theorem withTail_behind {index : Nat} (h : program.length ≤ index)
    (hindex : index < program.length + 128) : (withTail program)[index]? = some 0 := by
  unfold withTail
  rw [List.getElem?_append_right h, List.getElem?_replicate, if_pos (by omega)]

theorem withTail_inside {index : Nat} (h : index < program.length) :
    (withTail program)[index]? = some program[index] := by
  unfold withTail
  rw [List.getElem?_append_left h, List.getElem?_eq_getElem h]

/-- A program that is loaded into zeroed memory has zeros behind it. -/
theorem holds_withTail {origin : UInt16} (fits : origin.toNat + program.length + 128 ≤ 65536) :
    Holds (Memory.zeroed.store origin.toNat program).bytes origin (withTail program) := by
  have hlength := length_withTail program
  intro index hindex
  have haddress : (origin + UInt16.ofNat index).toNat = origin.toNat + index := by
    rw [UInt16.toNat_add, UInt16.toNat_ofNat']
    omega
  rw [Memory.byteAt_bytes, Memory.get_store, haddress, if_pos (Nat.le_add_right _ _),
    Nat.add_sub_cancel_left, Memory.get_zeroed]
  apply Option.some.inj
  rw [← List.getElem?_eq_getElem hindex]
  by_cases hinside : index < program.length
  · rw [withTail_inside hinside, List.getElem?_eq_getElem hinside]
    rfl
  · rw [withTail_behind (by omega) (by omega), List.getElem?_eq_none (by omega)]
    rfl

/-- What follows a branch is a distance that is not negative, or the first byte after the
program. -/
theorem BranchesForward.distance (h : BranchesForward program) {index : Nat}
    (hindex : index < program.length) (hopcode : program[index] = 0x90 ∨ program[index] = 0xB0) :
    ∃ distance, (withTail program)[index + 1]? = some distance ∧ distance < 0x80 ∧
      (index + 1 = program.length → distance = 0) := by
  by_cases hlast : index + 1 < program.length
  · refine ⟨program[index + 1], withTail_inside hlast, ?_, by omega⟩
    refine h (program[index], program[index + 1]) ?_ hopcode
    refine List.mem_of_getElem? (i := index) ?_
    rw [List.getElem?_zip_eq_some, List.getElem?_tail]
    exact ⟨List.getElem?_eq_getElem hindex, List.getElem?_eq_getElem hlast⟩
  · exact ⟨0, withTail_behind (by omega) (by omega), by decide, fun _ => rfl⟩

namespace Ahead

/-- The byte at the program counter and the byte after it. -/
theorem get (h : Ahead program start position cpu) {index : Nat} {value : UInt8}
    (hvalue : (withTail program)[position + index]? = some value) :
    cpu.memory.get (cpu.registers.pc + UInt16.ofNat index) = value := by
  rw [h.pc, ← UInt16.ofNat_add, Nat.add_assoc, UInt16.ofNat_add, ← Memory.byteAt_bytes]
  exact h.holds.byteAt hvalue

theorem opcode (h : Ahead program start position cpu) {value : UInt8}
    (hvalue : (withTail program)[position]? = some value) :
    cpu.memory.get cpu.registers.pc = value := by
  have hzero : cpu.registers.pc + UInt16.ofNat 0 = cpu.registers.pc := UInt16.add_zero _
  rw [← hzero]
  exact h.get hvalue

/-- Behind the program stands a BRK. -/
theorem breaks (h : Ahead program start position cpu) (behind : program.length ≤ position) :
    decode? (cpu.memory.get cpu.registers.pc) = some Engine.breakRow := by
  rw [h.opcode (withTail_behind behind h.position_lt)]
  rfl

/-- An instruction inside the program leads ahead, at most to where a branch at the end of the
program can lead. -/
theorem successor (h : Ahead program start position cpu) (forward : BranchesForward program)
    (inside : position < program.length)
    (decoded : decode? (cpu.memory.get cpu.registers.pc) = some i) :
    ∃ position', position < position' ∧ position' < program.length + 128 ∧
      cpu.successor i = UInt16.ofNat (start + position') := by
  have hbranches : ∀ i ∈ table, i.mode = .relative →
      i.size = 2 ∧ (i.opcode = 0x90 ∨ i.opcode = 0xB0) := by decide
  obtain ⟨hi, hopcode⟩ := decode?_eq_some decoded
  have hfollowing : cpu.following i = UInt16.ofNat (start + (position + i.size)) := by
    rw [Processor.following, h.pc, ← UInt16.ofNat_add, Nat.add_assoc]
  by_cases htaken : cpu.branches i = true
  · obtain ⟨hsize, hbranch⟩ := hbranches i hi (Processor.relative_of_branches hi htaken)
    rw [hopcode, h.opcode (withTail_inside inside)] at hbranch
    obtain ⟨distance, hdistance, hforward, hend⟩ := forward.distance inside hbranch
    have hbyte : cpu.operandByte = distance := h.get hdistance
    rw [UInt8.lt_iff_toNat_lt] at hforward
    change distance.toNat < 128 at hforward
    refine ⟨position + 2 + distance.toNat, by omega, ?_, ?_⟩
    · -- a branch that is the last byte takes a zero for its distance
      by_cases hlast : position + 1 = program.length
      · rw [hend hlast]
        change position + 2 + 0 < _
        omega
      · omega
    · have hsigned : distance.toInt8.toInt = distance.toNat := by
        rw [toInt_toInt8, if_pos hforward]
      rw [Processor.successor, if_pos htaken, hbyte, branchTarget_eq_add, hsigned, hfollowing,
        hsize, ofInt_natCast, ← UInt16.ofNat_add, Nat.add_assoc start]
  · have hsize := Processor.size_le_two i
    have hpositive : 1 ≤ i.size := Nat.le_add_right 1 _
    refine ⟨position + i.size, by omega, by omega, ?_⟩
    rw [Processor.successor, if_neg htaken, hfollowing]

/-- After an instruction inside the program that is no BRK, the program counter is further ahead. -/
theorem next (h : Ahead program start position cpu) (forward : BranchesForward program)
    (above : 0x100 ≤ start) (fits : start + program.length + 128 ≤ 65536)
    (inside : position < program.length)
    (decoded : decode? (cpu.memory.get cpu.registers.pc) = some i) (hbrk : i.mnemonic ≠ .brk) :
    ∃ position', position < position' ∧ Ahead program start position' (cpu.next i) := by
  obtain ⟨position', hahead, hlt, hsuccessor⟩ := h.successor forward inside decoded
  have hlength := length_withTail program
  refine ⟨position', hahead, Processor.isHalted_next_of_ne_brk h.running hbrk, hsuccessor, hlt, ?_⟩
  exact h.holds.next above (by omega) i

end Ahead

end

/-! ## Runs -/

namespace Engine

variable {σ : Type} {engine : Engine σ} {program : List UInt8} {start position : Nat}
  {limit : Limit} {s t : Session σ} {events : List TraceEvent}

/-- Every instruction but a BRK takes five ticks at most, so a limit of ticks admits instructions
that are few enough. -/
theorem Executes.admits_cycles (h : engine.Executes s events t) {bound : Nat}
    (hticks : s.cpu.cycles.count.toNat + 5 * events.length < bound + 5) (steps : Nat) :
    (Limit.cycles bound).Admits steps events := by
  induction h generalizing steps with
  | done s => trivial
  | @step s s' t i report events running decoded first rest ih =>
    rw [List.length_cons] at hticks
    refine ⟨decide_eq_false (by dsimp only [TraceEvent.capture]; omega), ?_⟩
    cases hhalted : s'.cpu.isHalted with
    | true =>
      -- nothing is executed after a BRK
      rcases rest.of_isHalted hhalted with ⟨rfl, rfl⟩
      trivial
    | false =>
      have hhigh := (ticks_of_step running first).2
      rw [Processor.excess_of_running hhalted] at hhigh
      exact ih (by omega) (steps + 1)

/-- Instructions are executed until a BRK is, or until a byte of the program has no row. -/
inductive ComesToEnd (engine : Engine σ) (program : List UInt8) (start remaining : Nat)
    (s : Session σ) (events : List TraceEvent) (t : Session σ) : Prop where
  | halted (event : TraceEvent) (executes : engine.Executes s events t)
      (length_le : events.length ≤ remaining + 1) (last : events.getLast? = some event)
      (brk : event.mnemonic = .brk) (halted : t.cpu.isHalted = true) :
      ComesToEnd engine program start remaining s events t
  | stuck {index : Nat} (executes : engine.Executes s events t)
      (length_lt : events.length < remaining) (stuck : t.cpu.Stuck)
      (inside : index < program.length) (pc : t.cpu.registers.pc = UInt16.ofNat (start + index)) :
      ComesToEnd engine program start remaining s events t

/-- An instruction comes before those that come to an end. -/
theorem ComesToEnd.cons {i : Instruction} {report : Step} {s' : Session σ} {remaining : Nat}
    (h : engine.ComesToEnd program start remaining s' events t) (running : s.cpu.isHalted = false)
    (decoded : decode? (s.cpu.memory.get s.cpu.registers.pc) = some i)
    (first : engine.step s = .ok report s') :
    engine.ComesToEnd program start (remaining + 1) s (.capture s.cpu i :: events) t := by
  cases h with
  | halted event executes length_le last brk halted =>
    refine .halted event (.step running decoded first executes) ?_ ?_ brk halted
    · rw [List.length_cons]
      omega
    · rw [List.getLast?_cons, last]
      rfl
  | stuck executes length_lt stuck inside pc =>
    refine .stuck (.step running decoded first executes) ?_ stuck inside pc
    rw [List.length_cons]
    omega

/-- A BRK is an end. -/
theorem comesToEnd_of_brk {i : Instruction} {remaining : Nat} (running : s.cpu.isHalted = false)
    (decoded : decode? (s.cpu.memory.get s.cpu.registers.pc) = some i) (hbrk : i.mnemonic = .brk)
    (room : s.cpu.cycles.count.toNat + 7 < UInt64.size) :
    ∃ events t, engine.ComesToEnd program start remaining s events t := by
  have hstep := engine.step_of_decode?_eq_some s running decoded room
  refine ⟨_, _, .halted (.capture s.cpu i) (.step running decoded hstep (.done _)) ?_ rfl
    hbrk (s.cpu.isHalted_next_of_brk hbrk)⟩
  rw [List.length_singleton]
  omega

/-- A program that branches forward only comes to an end. The bytes between the program counter and
the end of the program become fewer with every instruction. -/
theorem exists_comesToEnd (engine : Engine σ) (forward : BranchesForward program)
    (above : 0x100 ≤ start) (fits : start + program.length + 128 ≤ 65536) {remaining : Nat}
    (ahead : Ahead program start position s.cpu) (left : program.length ≤ position + remaining)
    (room : s.cpu.cycles.count.toNat + 7 * (remaining + 1) < UInt64.size) :
    ∃ events t, engine.ComesToEnd program start remaining s events t := by
  induction remaining generalizing position s with
  | zero => exact comesToEnd_of_brk ahead.running (ahead.breaks left) rfl (by omega)
  | succ remaining ih =>
    by_cases inside : position < program.length
    · cases decoded : decode? (s.cpu.memory.get s.cpu.registers.pc) with
      | none =>
        exact ⟨[], s, .stuck (.done s) (Nat.succ_pos remaining) ⟨ahead.running, decoded⟩ inside
          ahead.pc⟩
      | some i =>
        by_cases hbrk : i.mnemonic = .brk
        · exact comesToEnd_of_brk ahead.running decoded hbrk (by omega)
        · have hi := (decode?_eq_some decoded).1
          have hstep := engine.step_of_decode?_eq_some s ahead.running decoded (by omega)
          rcases ahead.next forward above fits inside decoded hbrk with ⟨position', hlt, hnext⟩
          let s' : Session σ := ⟨s.cpu.next i, engine.observe s.cpu i s.seen⟩
          rcases ih (s := s') hnext (by omega) (Processor.room_next hi room) with ⟨events, t, hends⟩
          exact ⟨_, t, hends.cons ahead.running decoded hstep⟩
    · exact comesToEnd_of_brk ahead.running (ahead.breaks (Nat.le_of_not_lt inside)) rfl
        (by omega)

/-- The run does not come to its limit. It executes the instructions of the events, which are at
most one for each byte of the program and one more, and then it has either halted, because the last
of them was a BRK, or failed, because a byte of the program has no row. -/
structure Finishes (engine : Engine σ) (program : List UInt8) (origin : UInt16) (limit : Limit)
    (s : Session σ) (events : List TraceEvent) (t : Session σ) : Prop where
  executes : engine.Executes (engine.start origin limit s) events t
  length_le : events.length ≤ program.length + 1
  ends :
    (engine.run origin limit s = .ok ⟨.halted, events.length, t.cpu.cycles⟩ t ∧
        ∃ event, events.getLast? = some event ∧ event.mnemonic = .brk) ∨
      ∃ opcode pc,
        engine.run origin limit s = .error (.unimplementedOpcode opcode pc) (engine.reject t) ∧
          decode? opcode = none ∧ origin.toNat ≤ pc.toNat ∧
          pc.toNat < origin.toNat + program.length

/-- A run that is allowed the instructions up to the end finishes there. -/
theorem ComesToEnd.finishes {origin : UInt16} (running : s.cpu.isHalted = false)
    (h : engine.ComesToEnd program origin.toNat program.length (engine.start origin limit s)
      events t)
    (fits : origin.toNat + program.length + 128 ≤ 65536) (allows : limit.Allows program.length)
    (hzero : s.cpu.cycles.count.toNat = 0) : engine.Finishes program origin limit s events t := by
  have hstart : (engine.start origin limit s).cpu.cycles.count.toNat = 0 := hzero
  -- the limit admits as many instructions as there are
  have hadmits : engine.Executes (engine.start origin limit s) events t →
      events.length ≤ program.length + 1 → limit.Admits 0 events := by
    intro hexecutes hlength
    unfold Limit.Allows at allows
    cases limit with
    | steps count => exact Limit.admits_of_length_le (by omega)
    | cycles count => exact hexecutes.admits_cycles (by omega) 0
  cases h with
  | halted event executes length_le last brk halted =>
    have hrun := run_of_executes running executes (hadmits executes length_le)
    rw [halted] at hrun
    exact ⟨executes, length_le, Or.inl ⟨hrun, event, last, brk⟩⟩
  | @stuck index executes length_lt stuck inside pc =>
    have hrun := run_of_executes running executes (hadmits executes (by omega))
    have hunreached : limit.isReached events.length t.cpu.cycles = false := by
      have hticks := executes.ticks.2
      rw [Processor.excess_of_running stuck.running] at hticks
      unfold Limit.Allows at allows
      cases limit with
      | steps count => exact decide_eq_false (by omega)
      | cycles count => exact decide_eq_false (by omega)
    rw [stuck.running, if_neg Bool.false_ne_true, loop_eq engine limit events.length t, hunreached,
      engine.step_of_stuck stuck] at hrun
    have hpc : t.cpu.registers.pc.toNat = origin.toNat + index := by
      rw [pc, UInt16.toNat_ofNat']
      omega
    refine ⟨executes, by omega, Or.inr ⟨_, _, hrun, stuck.undecoded, ?_⟩⟩
    rw [hpc]
    omega

/-- A program that branches forward only, and is loaded above page zero into a fresh processor with
room for a branch behind it, always stops: no limit that allows one instruction for each byte and a
BRK is reached. -/
theorem branches_forward_stops (engine : Engine σ) (program : List UInt8) (first origin : UInt16)
    (limit : Limit) (seen : σ) (forward : BranchesForward program) (above : 0x100 ≤ origin.toNat)
    (fits : origin.toNat + program.length + 128 ≤ 65536) (allows : limit.Allows program.length) :
    ∃ s, engine.load program origin ⟨.powerUp first, seen⟩ = .ok () s ∧
      ∃ events t, engine.Finishes program origin limit s events t := by
  refine ⟨_, engine.load_of_fits (by omega) _, ?_⟩
  generalize hs : (⟨_, _⟩ : Session σ) = s
  have hzero : s.cpu.cycles.count.toNat = 0 := by
    rw [← hs]
    rfl
  have hahead : Ahead program origin.toNat 0 (engine.start origin limit s).cpu := by
    rw [← hs]
    refine ⟨rfl, UInt16.ofNat_toNat.symm, by omega, ?_⟩
    rw [UInt16.ofNat_toNat]
    exact holds_withTail fits
  have hroom : (engine.start origin limit s).cpu.cycles.count.toNat + 7 * (program.length + 1) <
      UInt64.size := by
    have hsize : UInt64.size = 18446744073709551616 := rfl
    have hstart : (engine.start origin limit s).cpu.cycles.count.toNat = 0 := hzero
    omega
  rcases engine.exists_comesToEnd forward above fits hahead (Nat.le_add_left _ _) hroom
    with ⟨events, t, hends⟩
  exact ⟨events, t, hends.finishes hahead.running fits allows hzero⟩

/-- A branch over a byte without a row, and a branch whose distance is the first zero after the
program. -/
def skipping : List UInt8 :=
  [0x18, 0x90, 0x01, 0xFF, 0x90]

theorem branches_forward_stops_of_skipping :
    (BranchesForward skipping ∧ 0x100 ≤ (0xFF7B : UInt16).toNat ∧
      (0xFF7B : UInt16).toNat + skipping.length + 128 ≤ 65536 ∧
      (Limit.cycles 32).Allows skipping.length) ∧
      ∃ s, ({} : Engine Unit).load skipping 0xFF7B ⟨.powerUp 0, ()⟩ = .ok () s ∧
        ∃ events t, ({} : Engine Unit).Finishes skipping 0xFF7B (.cycles 32) s events t := by
  have hforward : BranchesForward skipping := by decide
  have habove : 0x100 ≤ (0xFF7B : UInt16).toNat := by decide
  have hfits : (0xFF7B : UInt16).toNat + skipping.length + 128 ≤ 65536 := by decide
  have hallows : (Limit.cycles 32).Allows skipping.length := by
    unfold Limit.Allows
    decide
  exact ⟨⟨hforward, habove, hfits, hallows⟩,
    branches_forward_stops {} skipping 0 0xFF7B (.cycles 32) () hforward habove hfits hallows⟩

end Engine

end Cpu6502
