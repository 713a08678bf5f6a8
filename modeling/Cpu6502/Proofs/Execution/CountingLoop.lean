import Cpu6502.Proofs.Assembly.RoundTrip
import Cpu6502.Proofs.Execution.Arithmetic
import Cpu6502.Proofs.Execution.StraightLine

/-! # A loop that counts

A small program that counts a cell of page zero up to a bound, from its source to the end of its
run. The code may lie anywhere, as long as the cell is not one of its own; it may end at the last
address, so that the BRK behind it is the zero at the first one.

* `CountingLoop.source_assembles`: the source assembles to the instructions.
* `CountingLoop.exists_counted`, `CountingLoop.exists_branched`: a round counts by one and compares,
  and the branch goes back as long as the bound has not been reached.
* `CountingLoop.exists_rounds`: by induction on the rounds that are left, the processor halts with
  the count at the bound.
-/

namespace Cpu6502

open Instruction

namespace CountingLoop

/-! ## The program -/

section
variable (bound cell : UInt8)

/-- The source of the loop. -/
def source : String :=
  "\n".intercalate
    ["LDA #$00", "loop: STA $" ++ Hex.byte cell, "INC $" ++ Hex.byte cell,
      "LDA $" ++ Hex.byte cell, "CMP #$" ++ Hex.byte bound, "BCC loop"]

/-- Clears the accumulator, before the loop. -/
def start : Encoded := .ofOpcode 0xA9 0 rfl

/-- Stores the accumulator in the cell, where a round starts. -/
def store : Encoded := .ofOpcode 0x85 cell rfl

def increase : Encoded := .ofOpcode 0xE6 cell rfl

def load : Encoded := .ofOpcode 0xA5 cell rfl

/-- Compares the accumulator with the bound. -/
def check : Encoded := .ofOpcode 0xC9 bound rfl

/-- Branches back by ten bytes if no carry is set. -/
def back : Encoded := .ofOpcode 0x90 0xF6 rfl

/-- What the zero behind the program is. -/
def stop : Encoded := .ofOpcode 0x00 0 rfl

/-- The instructions of a round up to the branch. -/
def body : List Encoded :=
  [store cell, increase cell, load cell, check bound]

/-- All instructions. -/
def program : List Encoded :=
  start :: (body bound cell ++ [back])

/-- The bytes of the program and the BRK behind it. -/
def code : List UInt8 :=
  (program bound cell).flatMap Encoded.bytes ++ stop.bytes

/-- The lines of the source. -/
def lines : List (List Char) :=
  [Statement.text ⟨start.row, .immediate 0⟩,
    "loop".toList ++ ':' :: ([' '] ++ Statement.text ⟨(store cell).row, .byte cell⟩),
    Statement.text ⟨(increase cell).row, .byte cell⟩, Statement.text ⟨(load cell).row, .byte cell⟩,
    Statement.text ⟨(check bound).row, .immediate bound⟩, Statement.text ⟨back.row, .label "loop"⟩]

end

variable {bound cell : UInt8} {origin : UInt16} {count : Nat}

/-- The instructions stand one after another. -/
theorem holds_parts {memory : Array UInt8} (h : Holds memory origin (code bound cell)) :
    Holds memory origin start.bytes ∧
      Holds memory (origin + 2) ((body bound cell).flatMap Encoded.bytes) ∧
      Holds memory (origin + 10) back.bytes ∧ Holds memory (origin + 12) stop.bytes := by
  have hcode : code bound cell =
      start.bytes ++ ((body bound cell).flatMap Encoded.bytes ++ (back.bytes ++ stop.bytes)) := rfl
  rw [hcode] at h
  have hrest := h.append_right.append_right
  rw [UInt16.add_assoc] at hrest
  have hlast := hrest.append_right
  rw [UInt16.add_assoc] at hlast
  exact ⟨h.append_left, h.append_right.append_left, hrest.append_left, hlast⟩

/-! ## The source -/

theorem toList_source (bound cell : UInt8) :
    (source bound cell).toList = ['\n'].intercalate (lines bound cell) := by
  have hzero : Hex.digits 2 0 = ['0', '0'] := by decide
  have hmnemonics : start.row.mnemonic = .lda ∧ (store cell).row.mnemonic = .sta ∧
      (increase cell).row.mnemonic = .inc ∧ (load cell).row.mnemonic = .lda ∧
      (check bound).row.mnemonic = .cmp ∧ back.row.mnemonic = .bcc :=
    ⟨rfl, rfl, rfl, rfl, rfl, rfl⟩
  have hlines : (["LDA #$00", "loop: STA $" ++ Hex.byte cell, "INC $" ++ Hex.byte cell,
      "LDA $" ++ Hex.byte cell, "CMP #$" ++ Hex.byte bound, "BCC loop"].map String.toList) =
        lines bound cell := by
    simp [lines, Statement.text, Argument.word, Hex.byte, hmnemonics, Mnemonic.name, hzero]
  rw [← hlines]
  exact String.toList_intercalate

/-- The line has no defect and holds the statement, after the label if one is given. -/
structure Reads (text : List Char) (name : Option String) (statement : Statement) : Prop where
  isLine : Text.IsLine text
  readable : Line.Readable text
  name_eq : Line.name? text = name
  statement_eq : Line.statement? text = some statement

theorem reads_statement (statement : Statement) (hformed : statement.WellFormed)
    (h : statement.argument.Writable) : Reads statement.text none statement := by
  have hbody := Statement.isBody_text h
  rcases Line.readable_of_parts (Line.ofText_body hbody) (by simp) (Statement.ofBody_text hformed h)
    with ⟨hreadable, hname, hstatement⟩
  exact ⟨hbody.isLine, hreadable, hname, hstatement⟩

theorem reads_label_statement {label : List Char} (hlabel : isIdentifier label)
    (statement : Statement) (hformed : statement.WellFormed) (h : statement.argument.Writable) :
    Reads (label ++ ':' :: ([' '] ++ statement.text)) (some (String.ofList label)) statement := by
  have hbody := Statement.isBody_text h
  have hword := IsWord.of_isIdentifier hlabel
  have hblank : ∀ c ∈ [' '], Text.isBlank c = true := List.forall_mem_singleton.2 (by decide)
  have hnewline : '\n' ∉ label ++ [':', ' '] := by
    intro hmem
    rcases List.mem_append.1 hmem with hmem | hmem
    · exact hword.isBody.not_mem (by decide) (by decide) hmem
    · exact absurd hmem (by decide)
  have hline := hbody.isLine_append hnewline
  rw [List.append_assoc] at hline
  rcases Line.readable_of_parts (Line.ofText_label_body hword hblank hbody) (by simpa using hlabel)
    (Statement.ofBody_text hformed h) with ⟨hreadable, hname, hstatement⟩
  exact ⟨hline, hreadable, hname, hstatement⟩

/-- What the lines are read as: a label two bytes after the start, and a statement for each
instruction. -/
theorem read_lines (bound cell : UInt8) :
    (∀ text ∈ lines bound cell, Text.IsLine text ∧ Line.Readable text) ∧
      Layout.definitions 0 (lines bound cell) = [("loop", 2)] ∧
      Layout.placements 1 0 (lines bound cell) =
        [⟨1, 0, ⟨start.row, .immediate 0⟩⟩, ⟨2, 2, ⟨(store cell).row, .byte cell⟩⟩,
          ⟨3, 4, ⟨(increase cell).row, .byte cell⟩⟩, ⟨4, 6, ⟨(load cell).row, .byte cell⟩⟩,
          ⟨5, 8, ⟨(check bound).row, .immediate bound⟩⟩, ⟨6, 10, ⟨back.row, .label "loop"⟩⟩] := by
  have hwritable : Argument.Writable (.label "loop") := by
    rintro name ⟨⟩
    decide
  have hidentifier : isIdentifier "loop".toList := by decide
  have hstart := reads_statement ⟨start.row, .immediate 0⟩ ⟨start.mem_table, rfl⟩ nofun
  have hstore := reads_label_statement hidentifier ⟨(store cell).row, .byte cell⟩
    ⟨(store cell).mem_table, rfl⟩ nofun
  have hincrease := reads_statement ⟨(increase cell).row, .byte cell⟩
    ⟨(increase cell).mem_table, rfl⟩ nofun
  have hload := reads_statement ⟨(load cell).row, .byte cell⟩ ⟨(load cell).mem_table, rfl⟩ nofun
  have hcheck := reads_statement ⟨(check bound).row, .immediate bound⟩
    ⟨(check bound).mem_table, rfl⟩ nofun
  have hback := reads_statement ⟨back.row, .label "loop"⟩ ⟨back.mem_table, rfl⟩ hwritable
  refine ⟨?_, ?_, ?_⟩
  · intro text htext
    simp only [lines, List.mem_cons, List.not_mem_nil, or_false] at htext
    rcases htext with rfl | rfl | rfl | rfl | rfl | rfl
    · exact ⟨hstart.isLine, hstart.readable⟩
    · exact ⟨hstore.isLine, hstore.readable⟩
    · exact ⟨hincrease.isLine, hincrease.readable⟩
    · exact ⟨hload.isLine, hload.readable⟩
    · exact ⟨hcheck.isLine, hcheck.readable⟩
    · exact ⟨hback.isLine, hback.readable⟩
  · simp only [lines, Layout.definitions, Line.size, hstart.name_eq, hstart.statement_eq,
      hstore.name_eq, hincrease.name_eq, hload.name_eq, hcheck.name_eq, hback.name_eq,
      String.ofList_toList]
    rfl
  · simp only [lines, Layout.placements, Line.size, hstart.statement_eq, hstore.statement_eq,
      hincrease.statement_eq, hload.statement_eq, hcheck.statement_eq, hback.statement_eq]
    rfl

/-- The source assembles to the program. -/
theorem source_assembles (bound cell : UInt8) :
    assemble (source bound cell) = .ok ((program bound cell).flatMap Encoded.bytes) := by
  rcases read_lines bound cell with ⟨hreads, hdefinitions, hplacements⟩
  have hlines : Text.lines (source bound cell).toList = lines bound cell := by
    rw [toList_source]
    exact Text.lines_intercalate fun text htext => (hreads text htext).1
  have hnodup : ((lines bound cell).filterMap Line.name?).Nodup := by
    rw [← Layout.map_fst_definitions 0, hdefinitions]
    exact List.pairwise_singleton _ _
  have hlabel : (Layout.read (lines bound cell)).offset? "loop" = some 2 := by
    apply Layout.offset?_read hnodup
    rw [hdefinitions]
    exact List.mem_singleton_self _
  have hback : (Layout.read (lines bound cell)).encode ⟨6, 10, ⟨back.row, .label "loop"⟩⟩ =
      .ok back.bytes := by
    unfold Layout.encode
    simp only [hlabel]
    rfl
  refine assemble_eq_ok_iff.2 ⟨(program bound cell).map Encoded.bytes, ?_, ?_, ?_, ?_⟩
  · rw [hlines]
    exact fun text htext => (hreads text htext).2
  · rw [hlines]
    exact hnodup
  · rw [hlines, hplacements]
    simp only [List.map_cons, List.map_nil, hback]
    rfl
  · exact List.flatMap_def

/-! ## One round -/

/-- The cell is none of those that hold the code. -/
def Apart (cell : UInt8) (origin : UInt16) : Prop :=
  ∀ index ≤ 12, origin + UInt16.ofNat index ≠ cell.toUInt16

/-- The processor begins a round, with a count in the accumulator. -/
structure AtLoop (bound cell : UInt8) (origin : UInt16) (count : Nat) (cpu : Processor) : Prop where
  running : cpu.isHalted = false
  pc : cpu.registers.pc = origin + 2
  a : cpu.registers.a.toNat = count
  holds : Holds cpu.memory.bytes origin (code bound cell)

/-- The processor has counted and compared the count with the bound. -/
structure Counted (bound cell : UInt8) (origin : UInt16) (count : Nat) (cpu : Processor) :
    Prop where
  running : cpu.isHalted = false
  a : cpu.registers.a.toNat = count
  stored : (cpu.memory.get cell.toUInt16).toNat = count
  c : cpu.flags.c = decide (bound.toNat ≤ count)
  z : cpu.flags.z = decide (count = bound.toNat)
  holds : Holds cpu.memory.bytes origin (code bound cell)

section
variable {σ : Type} {engine : Engine σ} {s t : Session σ}

theorem straight_of_mem_body {e : Encoded} (he : e ∈ body bound cell) :
    e.row.mnemonic.isStraight = true := by
  simp only [body, List.mem_cons, List.not_mem_nil, or_false] at he
  rcases he with rfl | rfl | rfl | rfl
  · rfl
  · rfl
  · rfl
  · rfl

/-- A round writes to no other cell. -/
theorem eq_of_stores {e : Encoded} (he : e ∈ body bound cell) {address : UInt16}
    (h : e.Stores address) : address = cell.toUInt16 := by
  rcases h with ⟨hmnemonic, haddress⟩
  simp only [body, List.mem_cons, List.not_mem_nil, or_false] at he
  rcases he with rfl | rfl | rfl | rfl
  · exact haddress
  · exact haddress
  · exact haddress
  · rcases hmnemonic with hmnemonic | hmnemonic
    · cases hmnemonic
    · cases hmnemonic

section
variable {cpu : Processor}

theorem next_store (h : Holds cpu.memory.bytes cpu.registers.pc (store cell).bytes) :
    (cpu.next (store cell).row).memory = cpu.memory.set cell.toUInt16 cpu.registers.a := by
  have hbyte : cpu.operandByte = cell := (store cell).operandByte_of_holds h nofun
  rw [← hbyte]
  rfl

theorem next_increase (h : Holds cpu.memory.bytes cpu.registers.pc (increase cell).bytes) :
    (cpu.next (increase cell).row).memory =
      cpu.memory.set cell.toUInt16 (cpu.memory.get cell.toUInt16 + 1) := by
  have hbyte : cpu.operandByte = cell := (increase cell).operandByte_of_holds h nofun
  rw [← hbyte]
  rfl

theorem next_load (h : Holds cpu.memory.bytes cpu.registers.pc (load cell).bytes) :
    (cpu.next (load cell).row).registers.a = cpu.memory.get cell.toUInt16 :=
  (load cell).operandValue_of_holds h nofun

theorem next_check (h : Holds cpu.memory.bytes cpu.registers.pc (check bound).bytes) :
    (cpu.next (check bound).row).flags = (cpu.compare bound).flags := by
  have hvalue : cpu.operandValue (check bound).row = bound :=
    (check bound).operandValue_of_holds h nofun
  rw [Processor.next_flags]
  show (cpu.compare (cpu.operandValue (check bound).row)).flags = _
  rw [hvalue]

end

/-- What the instructions of a round leave. -/
theorem counted_of_performs (h : AtLoop bound cell origin count s.cpu) (apart : Apart cell origin)
    (small : count < 255) (performs : engine.Performs s (body bound cell) t)
    (running : t.cpu.isHalted = false) : Counted bound cell origin (count + 1) t.cpu := by
  have hholds : Holds t.cpu.memory.bytes origin (code bound cell) := by
    intro index hindex
    have hcell : ∀ e ∈ body bound cell, ¬ e.Stores (origin + UInt16.ofNat index) :=
      fun e he hstores => apart index (Nat.le_of_lt_succ hindex) (eq_of_stores he hstores)
    rw [Memory.byteAt_bytes, performs.get_memory hcell, ← Memory.byteAt_bytes]
    exact h.holds index hindex
  rcases performs.of_cons with ⟨hstore, hrest⟩
  rcases hrest.of_cons with ⟨hincrease, hrest⟩
  rcases hrest.of_cons with ⟨hload, hrest⟩
  rcases hrest.of_cons with ⟨hcheck, hrest⟩
  cases hrest
  -- the cell takes the count from the accumulator, and gives it back when it has been increased
  have hstored := next_store hstore
  have hincreased := next_increase hincrease
  have hloaded := next_load hload
  have hchecked := next_check hcheck
  dsimp only at *
  generalize s.cpu.next (store cell).row = stored at *
  generalize stored.next (increase cell).row = increased at *
  have hcell : (increased.memory.get cell.toUInt16).toNat = count + 1 := by
    rw [hincreased, Memory.get_set_self, hstored, Memory.get_set_self, UInt8.toNat_add, h.a]
    exact Nat.mod_eq_of_lt (Nat.succ_lt_succ small)
  have ha : (increased.next (load cell).row).registers.a.toNat = count + 1 := by
    rw [hloaded, hcell]
  refine ⟨running, ha, hcell, ?_, ?_, hholds⟩
  · rw [hchecked, Processor.compare_c, ha]
  · rw [hchecked, Processor.compare_z, decide_eq_decide, ← UInt8.toNat_inj, ha]

/-- The instructions of a round are performed, and lead to the branch. -/
theorem exists_counted (engine : Engine σ) (h : AtLoop bound cell origin count s.cpu)
    (apart : Apart cell origin) (small : count < 255)
    (room : s.cpu.cycles.count.toNat + 28 < UInt64.size) :
    ∃ events t, engine.Executes s events t ∧ events.length = 4 ∧
      Counted bound cell origin (count + 1) t.cpu ∧ t.cpu.registers.pc = origin + 10 ∧
      t.cpu.cycles.count.toNat = s.cpu.cycles.count.toNat + 13 := by
  rcases holds_parts h.holds with ⟨-, hbody, -, -⟩
  rw [← h.pc] at hbody
  have hapart : ∀ e ∈ body bound cell, ∀ index < ((body bound cell).flatMap Encoded.bytes).length,
      ¬ e.Stores (s.cpu.registers.pc + UInt16.ofNat index) := by
    intro e he index hindex hstores
    have hlength : index < 8 := hindex
    refine apart (2 + index) (by omega) ?_
    rw [UInt16.ofNat_add, ← UInt16.add_assoc, ← eq_of_stores he hstores, h.pc]
    rfl
  have hstraight : ∀ e ∈ body bound cell, e.row.mnemonic.isStraight = true :=
    fun e he => straight_of_mem_body he
  rcases engine.exists_performs hstraight h.running hbody hapart room with ⟨t, performs⟩
  rcases performs.traverses hstraight h.running room with ⟨events, traverses⟩
  refine ⟨events, t, traverses.executes, traverses.length,
    counted_of_performs h apart small performs traverses.running, ?_, traverses.cycles⟩
  rw [traverses.pc, h.pc, UInt16.add_assoc]
  rfl

/-- The ticks that a branch back takes for leaving the page. -/
def crossing (origin : UInt16) : Nat :=
  (pageCrossed (origin + 12) (origin + 2)).toNat

/-- The branch goes back as long as the count is below the bound. -/
theorem exists_branched (engine : Engine σ) (h : Counted bound cell origin count s.cpu)
    (hpc : s.cpu.registers.pc = origin + 10)
    (room : s.cpu.cycles.count.toNat + 7 < UInt64.size) :
    ∃ event t, engine.Executes s [event] t ∧ Counted bound cell origin count t.cpu ∧
      if bound.toNat ≤ count then
        t.cpu.registers.pc = origin + 12 ∧
          t.cpu.cycles.count.toNat = s.cpu.cycles.count.toNat + 2
      else
        t.cpu.registers.pc = origin + 2 ∧
          t.cpu.cycles.count.toNat = s.cpu.cycles.count.toNat + 3 + crossing origin := by
  rcases holds_parts h.holds with ⟨-, -, hback, -⟩
  rw [← hpc] at hback
  have hstep := engine.step_of_decode?_eq_some s h.running (back.decode_of_holds hback) room
  have hticks := Processor.next_cycles_toNat back.mem_table room
  have hrunning := Processor.isHalted_next_of_ne_brk (i := back.row) h.running (by decide)
  refine ⟨_, _, .step h.running (back.decode_of_holds hback) hstep (.done _),
    ⟨hrunning, h.a, h.stored, h.c, h.z, h.holds⟩, ?_⟩
  have hfollowing : s.cpu.following back.row = origin + 12 := by
    rw [Processor.following, hpc, UInt16.add_assoc]
    rfl
  have htarget : branchTarget (origin + 12) s.cpu.operandByte.toInt8 = origin + 2 := by
    rw [back.operandByte_of_holds hback (by decide), branchTarget_eq_add, UInt16.add_assoc]
    rfl
  have hcondition : s.cpu.branches back.row = !decide (bound.toNat ≤ count) := by
    rw [← h.c]
    rfl
  rw [Processor.cost_toNat _ back.mem_table, Processor.penalty, Processor.successor, hcondition,
    hfollowing, htarget] at hticks
  rw [Processor.next_pc, Processor.successor, hcondition, hfollowing, htarget]
  by_cases hle : bound.toNat ≤ count
  · rw [decide_eq_true hle] at hticks ⊢
    rw [if_pos hle]
    exact ⟨rfl, hticks⟩
  · rw [decide_eq_false hle] at hticks ⊢
    rw [if_neg hle]
    refine ⟨rfl, hticks.trans ?_⟩
    simp only [Bool.not_false, if_true]
    unfold crossing
    cases pageCrossed (origin + 12) (origin + 2) with
    | false => rfl
    | true => rfl

/-- The processor has halted behind the loop. -/
structure Ended (bound cell : UInt8) (origin : UInt16) (cpu : Processor) : Prop where
  halted : cpu.isHalted = true
  a : cpu.registers.a.toNat = max bound.toNat 1
  stored : (cpu.memory.get cell.toUInt16).toNat = max bound.toNat 1
  c : cpu.flags.c = true
  z : cpu.flags.z = decide (1 ≤ bound.toNat)
  pc : cpu.registers.pc = origin + 13

/-- The zero behind the program halts the processor. -/
theorem exists_ended (engine : Engine σ)
    (h : Counted bound cell origin (max bound.toNat 1) s.cpu)
    (hpc : s.cpu.registers.pc = origin + 12)
    (room : s.cpu.cycles.count.toNat + 7 < UInt64.size) :
    ∃ event t, engine.Executes s [event] t ∧ Ended bound cell origin t.cpu ∧
      t.cpu.cycles.count.toNat = s.cpu.cycles.count.toNat + 7 := by
  rcases holds_parts h.holds with ⟨-, -, -, hstop⟩
  rw [← hpc] at hstop
  have hstep := engine.step_of_decode?_eq_some s h.running (stop.decode_of_holds hstop) room
  have hticks := Processor.next_cycles_toNat stop.mem_table room
  rw [Processor.cost_of_brk s.cpu rfl] at hticks
  have hc : s.cpu.flags.c = true := by
    rw [h.c, decide_eq_true_iff]
    omega
  have hz : s.cpu.flags.z = decide (1 ≤ bound.toNat) := by
    rw [h.z, decide_eq_decide]
    omega
  have hend : s.cpu.successor stop.row = origin + 13 := by
    show s.cpu.registers.pc + 1 = origin + 13
    rw [hpc, UInt16.add_assoc]
    rfl
  exact ⟨_, _, .step h.running (stop.decode_of_holds hstop) hstep (.done _),
    ⟨s.cpu.isHalted_next_of_brk rfl, h.a, h.stored, hc, hz, hend⟩, hticks⟩

/-! ## The loop -/

/-- The rounds that are left, and then the BRK. -/
theorem exists_rounds (engine : Engine σ) (apart : Apart cell origin) {left : Nat}
    (h : AtLoop bound cell origin count s.cpu) (hleft : count + left + 1 = max bound.toNat 1)
    (room : s.cpu.cycles.count.toNat + 35 * (left + 1) + 7 < UInt64.size) :
    ∃ events t, engine.Executes s events t ∧ events.length = 5 * (left + 1) + 1 ∧
      Ended bound cell origin t.cpu ∧
      t.cpu.cycles.count.toNat =
        s.cpu.cycles.count.toNat + left * (16 + crossing origin) + 22 := by
  have hbound := bound.toNat_lt
  have hcrossing : crossing origin ≤ 1 := Bool.toNat_le _
  induction left generalizing count s with
  | zero =>
    rcases exists_counted engine h apart (by omega) (by omega)
      with ⟨events, u, hbody, hlength, hcounted, hpc, hticks⟩
    rcases exists_branched engine hcounted hpc (by omega) with ⟨branch, v, hbranch, hcounted', hend⟩
    rw [if_pos (by omega)] at hend
    have hlast : count + 1 = max bound.toNat 1 := hleft
    rw [hlast] at hcounted'
    rcases exists_ended engine hcounted' hend.1 (by omega) with ⟨halt, t, hhalt, hended, hticks'⟩
    refine ⟨events ++ ([branch] ++ [halt]), t, ?_, ?_, hended, ?_⟩
    · exact Engine.executes_append_iff.2
        ⟨u, hbody, Engine.executes_append_iff.2 ⟨v, hbranch, hhalt⟩⟩
    · rw [List.length_append, hlength]
      rfl
    · omega
  | succ left ih =>
    rcases exists_counted engine h apart (by omega) (by omega)
      with ⟨events, u, hbody, hlength, hcounted, hpc, hticks⟩
    rcases exists_branched engine hcounted hpc (by omega) with ⟨branch, v, hbranch, hcounted', hend⟩
    -- the bound is not one, since more than one round was left
    rw [if_neg (by omega)] at hend
    have hagain : AtLoop bound cell origin (count + 1) v.cpu :=
      ⟨hcounted'.running, hend.1, hcounted'.a, hcounted'.holds⟩
    rcases ih hagain (by omega) (by omega) with ⟨events', t, hrest, hlength', hended, hticks'⟩
    refine ⟨events ++ ([branch] ++ events'), t, ?_, ?_, hended, ?_⟩
    · exact Engine.executes_append_iff.2
        ⟨u, hbody, Engine.executes_append_iff.2 ⟨v, hbranch, hrest⟩⟩
    · rw [List.length_append, List.length_append, hlength, hlength', List.length_singleton]
      omega
    · rw [hticks', hend.2, hticks, Nat.succ_mul]
      omega

/-- The loop and the zero behind it are held where the loop has been loaded, even if the zero is at
the first address. -/
theorem holds_code (bound cell : UInt8) (fits : origin.toNat ≤ 0xFFF4) :
    Holds (Memory.zeroed.store origin.toNat ((program bound cell).flatMap Encoded.bytes)).bytes
      origin (code bound cell) := by
  have hlength : ((program bound cell).flatMap Encoded.bytes).length = 12 := rfl
  intro index hindex
  have haddress : (origin + UInt16.ofNat index).toNat = (origin.toNat + index) % 65536 := by
    rw [UInt16.toNat_add, UInt16.toNat_ofNat']
    exact Nat.add_mod_mod _ _ _
  have hle : index < 13 := hindex
  rw [Memory.byteAt_bytes, Memory.get_store, haddress, Memory.get_zeroed]
  by_cases hinside : index < 12
  · rw [Nat.mod_eq_of_lt (by omega), if_pos (Nat.le_add_right _ _), Nat.add_sub_cancel_left,
      List.getElem?_eq_getElem hinside, Option.getD_some]
    exact (List.getElem_append_left hinside).symm
  · obtain rfl : index = 12 := by omega
    show _ = (0 : UInt8)
    split
    · rw [List.getElem?_eq_none (by omega)]
      rfl
    · rfl

/-- The first instruction leads to the loop. -/
theorem exists_atLoop (engine : Engine σ) (running : s.cpu.isHalted = false)
    (hpc : s.cpu.registers.pc = origin) (holds : Holds s.cpu.memory.bytes origin (code bound cell))
    (room : s.cpu.cycles.count.toNat + 7 < UInt64.size) :
    ∃ event t, engine.Executes s [event] t ∧ AtLoop bound cell origin 0 t.cpu ∧
      t.cpu.cycles.count.toNat = s.cpu.cycles.count.toNat + 2 := by
  rcases holds_parts holds with ⟨hstart, -, -, -⟩
  rw [← hpc] at hstart
  have hstep := engine.step_of_decode?_eq_some s running (start.decode_of_holds hstart) room
  have hticks := Processor.next_cycles_toNat start.mem_table room
  have hrunning := Processor.isHalted_next_of_ne_brk (i := start.row) running nofun
  have hvalue : s.cpu.operandValue start.row = 0 := start.operandValue_of_holds hstart nofun
  have ha : (s.cpu.next start.row).registers.a = 0 := hvalue
  refine ⟨_, _, .step running (start.decode_of_holds hstart) hstep (.done _),
    ⟨hrunning, ?_, ?_, holds⟩, hticks⟩
  · show s.cpu.registers.pc + 2 = origin + 2
    rw [hpc]
  · rw [ha]
    rfl

/-- A run of the loop. -/
theorem exists_run (engine : Engine σ) (apart : Apart cell origin) {steps : Nat}
    (running : s.cpu.isHalted = false) (hzero : s.cpu.cycles = .zero)
    (holds : Holds s.cpu.memory.bytes origin (code bound cell))
    (enough : 5 * max bound.toNat 1 + 2 ≤ steps) :
    ∃ t, engine.run origin (.steps steps) s =
        .ok ⟨.halted, 5 * max bound.toNat 1 + 2, t.cpu.cycles⟩ t ∧
      t.cpu.cycles.count.toNat =
        5 + 10 * max bound.toNat 1 + (max bound.toNat 1 - 1) * (6 + crossing origin) + 9 ∧
      Ended bound cell origin t.cpu := by
  have hbound := bound.toNat_lt
  have hsize : UInt64.size = 18446744073709551616 := rfl
  have hticks₀ : (engine.start origin (.steps steps) s).cpu.cycles.count.toNat = 0 :=
    congrArg (fun ticks : Ticks => ticks.count.toNat) hzero
  rcases exists_atLoop engine (s := engine.start origin (.steps steps) s) running rfl holds
    (by omega) with ⟨event, u, hfirst, hloop, hticks⟩
  obtain ⟨left, hleft⟩ : ∃ left, 0 + left + 1 = max bound.toNat 1 :=
    ⟨max bound.toNat 1 - 1, by omega⟩
  rcases exists_rounds engine apart hloop hleft (by omega)
    with ⟨events, t, hrounds, hcount, hended, hticks'⟩
  have hexecutes := Engine.executes_append_iff.2 ⟨u, hfirst, hrounds⟩
  have hlength : ([event] ++ events).length = 5 * max bound.toNat 1 + 2 := by
    rw [List.length_append, hcount, List.length_singleton]
    omega
  have hadmits : (Limit.steps steps).Admits 0 ([event] ++ events) :=
    Limit.admits_of_length_le (by omega)
  have hrun := Engine.run_of_executes running hexecutes hadmits
  rw [hended.halted, if_pos rfl, hlength] at hrun
  refine ⟨t, hrun, ?_, hended⟩
  have hback : max bound.toNat 1 - 1 = left := by omega
  rw [hticks', hticks, hticks₀, hback, ← hleft, Nat.mul_add left 16, Nat.mul_add left 6]
  omega

end

/-- Whatever the bound, and wherever the loop is loaded, even if it ends at the last address, it
counts from zero up to the bound, or to one if the bound is zero, and halts. -/
theorem counts_to_bound {σ : Type} (engine : Engine σ) (s : Session σ) (first origin : UInt16)
    (bound cell : UInt8) {steps : Nat} (fits : origin.toNat ≤ 0xFFF4) (apart : Apart cell origin)
    (enough : 5 * max bound.toNat 1 + 2 ≤ steps) :
    ∃ bytes t, assemble (source bound cell) = .ok bytes ∧
      (do
        engine.reset first
        engine.load bytes origin
        engine.run origin (.steps steps) : Watched σ RunOutcome) s =
          .ok ⟨.halted, 5 * max bound.toNat 1 + 2, t.cpu.cycles⟩ t ∧
      t.cpu.cycles.count.toNat =
        5 + 10 * max bound.toNat 1 + (max bound.toNat 1 - 1) * (6 + crossing origin) + 9 ∧
      Ended bound cell origin t.cpu := by
  let bytes := (program bound cell).flatMap Encoded.bytes
  have hlength : bytes.length = 12 := rfl
  have hreset : engine.reset first s =
      .ok () ⟨.powerUp first, engine.log (.reset first) s.seen⟩ := rfl
  have hload := engine.load_of_fits (show origin.toNat + bytes.length ≤ 65536 by omega)
    ⟨.powerUp first, engine.log (.reset first) s.seen⟩
  let loaded : Session σ := ⟨{ Processor.powerUp first with
    memory := (Processor.powerUp first).memory.store origin.toNat bytes },
    engine.log (.loaded bytes.length origin) (engine.log (.reset first) s.seen)⟩
  rcases exists_run engine (s := loaded) apart rfl rfl (holds_code bound cell fits) enough
    with ⟨t, hrun, hticks, hended⟩
  refine ⟨bytes, t, source_assembles bound cell, ?_, hticks, hended⟩
  rw [Watched.bind_of_ok hreset, Watched.bind_of_ok hload]
  exact hrun

theorem counts_to_bound_of_three :
    ((0xFFF4 : UInt16).toNat ≤ 0xFFF4 ∧ Apart 0x10 0xFFF4 ∧
      5 * max (3 : UInt8).toNat 1 + 2 ≤ 17) ∧
      ∃ bytes t, assemble (source 3 0x10) = .ok bytes ∧
        (do
          Engine.reset {} 0
          Engine.load {} bytes 0xFFF4
          Engine.run {} 0xFFF4 (.steps 17) : Watched Unit RunOutcome) ⟨.powerUp 0, ()⟩ =
            .ok ⟨.halted, 17, t.cpu.cycles⟩ t ∧
        t.cpu.cycles.count.toNat = 58 ∧ Ended 3 0x10 0xFFF4 t.cpu := by
  have hfits : (0xFFF4 : UInt16).toNat ≤ 0xFFF4 := Nat.le_refl _
  have hapart : Apart 0x10 0xFFF4 := by
    unfold Apart
    decide
  have henough : 5 * max (3 : UInt8).toNat 1 + 2 ≤ 17 := Nat.le_refl _
  exact ⟨⟨hfits, hapart, henough⟩,
    counts_to_bound ({} : Engine Unit) ⟨.powerUp 0, ()⟩ 0 0xFFF4 3 0x10 hfits hapart henough⟩

end CountingLoop

end Cpu6502
