import Cpu6502.Proofs.Assembly.Layout
import Cpu6502.Proofs.Disassembly
import Cpu6502.Proofs.Execution.Manual

/-! # Branches to labels

Three computations find where a branch leads. The assembler takes the distance between two offsets
of the source, and the disassembler and the engine add a signed byte to an address and wrap. For a
label they agree: wherever the code is loaded, the branch is shown with the address that the label
has there, and is taken to it.
-/

namespace Cpu6502

open Instruction

/-! ## Distances -/

/-- The distance to a label leads from the end of the branch to the label, also across the end of
the address space. -/
theorem add_ofInt_distance (origin : UInt16) (offset target : Nat) :
    origin + UInt16.ofNat offset + 2 + UInt16.ofInt (Layout.distance offset target) =
      origin + UInt16.ofNat target := by
  have hdistance := toNat_ofInt (Layout.distance offset target)
  -- both sides are the target modulo 65536, whatever the origin
  have hsum : UInt16.ofNat offset + 2 + UInt16.ofInt (Layout.distance offset target) =
      UInt16.ofNat target := by
    apply UInt16.toNat_inj.1
    unfold Layout.distance at hdistance ⊢
    have htwo : (2 : UInt16).toNat = 2 := rfl
    rw [UInt16.toNat_add, UInt16.toNat_add, UInt16.toNat_ofNat', UInt16.toNat_ofNat', htwo]
    omega
  rw [UInt16.add_assoc, UInt16.add_assoc, ← UInt16.add_assoc (UInt16.ofNat offset), hsum]

/-- A distance that fits into a signed byte survives in it. -/
theorem branchTarget_distance (origin : UInt16) {offset target : Nat}
    (hlow : -128 ≤ Layout.distance offset target) (hhigh : Layout.distance offset target ≤ 127) :
    branchTarget (origin + UInt16.ofNat offset + 2)
        (Int8.ofInt (Layout.distance offset target)).toUInt8.toInt8 =
      origin + UInt16.ofNat target := by
  rw [branchTarget_eq_add, Int8.toInt8_toUInt8, Int8.toInt_ofInt_of_le hlow (by omega),
    add_ofInt_distance]

/-! ## The bytes of a branch -/

/-- On one of the lines stands the branch `row`, with `offset` bytes before it, to a label that one
of the lines defines, with `target` bytes before it. -/
inductive Line.BranchesTo (lines : List (List Char)) (row : Instruction) : Nat → Nat → Prop where
  | intro {name : String} {index definition : Nat}
      (branch : lines[index]?.bind statement? = some ⟨row, .label name⟩)
      (label : lines[definition]?.bind name? = some name) :
      BranchesTo lines row (offset lines index) (offset lines definition)

section
variable {source : String} {bytes : List UInt8} {row : Instruction} {offset target : Nat}

/-- A branch to a label is a row of the table in the relative mode. -/
theorem Line.BranchesTo.row_mem {lines : List (List Char)}
    (h : Line.BranchesTo lines row offset target) : row ∈ table ∧ row.mode = .relative := by
  rcases h with ⟨hbranch, -⟩
  rcases Option.bind_eq_some_iff.1 hbranch with ⟨text, -, hstatement⟩
  have hformed := Line.wellFormed hstatement
  exact ⟨hformed.mem_table, hformed.mode⟩

/-- A branch to a label is assembled to its opcode and the distance, which fits. -/
theorem Line.BranchesTo.assembled (h : assemble source = .ok bytes)
    (hbranch : Line.BranchesTo (Text.lines source.toList) row offset target) :
    (-128 ≤ Layout.distance offset target ∧ Layout.distance offset target ≤ 127) ∧
      bytes[offset]? = some row.opcode ∧
      bytes[offset + 1]? = some (Int8.ofInt (Layout.distance offset target)).toUInt8 := by
  rcases assemble_eq_ok_iff.1 h with ⟨chunks, -, hnodup, hencode, rfl⟩
  rcases hbranch with ⟨hbranch, hlabel⟩
  rcases Option.bind_eq_some_iff.1 hbranch with ⟨text, htext, hstatement⟩
  rcases Option.bind_eq_some_iff.1 hlabel with ⟨text', htext', hname⟩
  have htarget := Layout.offset?_read hnodup
    (Layout.mem_definitions.2 ⟨_, text', htext', hname, (Nat.zero_add _).symm⟩)
  rcases Layout.chunk_at hencode htext hstatement with
    ⟨before, chunk, after, hflatten, hbefore, hchunk⟩
  -- the label was found, so the statement was encoded because the distance fits
  rw [Nat.zero_add] at hchunk
  unfold Layout.encode at hchunk
  dsimp only at hchunk
  rw [htarget] at hchunk
  dsimp only at hchunk
  split at hchunk
  · rename_i hrange
    cases hchunk
    refine ⟨hrange, ?_, ?_⟩
    · rw [hflatten, ← hbefore]
      simp
    · rw [hflatten, ← hbefore]
      simp
  · cases hchunk

theorem Instruction.branch_of_relative (hrow : row ∈ table) (hmode : row.mode = .relative) :
    row.size = 2 ∧ row.mnemonic ≠ .brk := by
  have hall : ∀ i ∈ table, i.mode = .relative → i.size = 2 ∧ i.mnemonic ≠ .brk := by decide
  exact hall row hrow hmode

/-- A branch to a label means what the source says. Wherever the code is loaded, the disassembler
shows the branch with the address of the label, and the engine goes to that address if the carry
flag satisfies the branch and to the address after the branch if it does not. -/
theorem Line.BranchesTo.leads_to_label (h : assemble source = .ok bytes)
    (hbranch : Line.BranchesTo (Text.lines source.toList) row offset target) (origin : UInt16) :
    offset + 2 ≤ bytes.length ∧
      (∀ code, Holds code origin bytes →
        (Item.decode code (origin + UInt16.ofNat offset)).text (origin + UInt16.ofNat offset) =
          row.mnemonic.name ++ " $" ++ Hex.word (origin + UInt16.ofNat target)) ∧
      ∀ {σ : Type} (engine : Engine σ) (s : Session σ), s.cpu.isHalted = false →
        s.cpu.registers.pc = origin + UInt16.ofNat offset →
        bytes[offset]? = some (s.cpu.memory.get s.cpu.registers.pc) →
        bytes[offset + 1]? = some (s.cpu.memory.get (s.cpu.registers.pc + 1)) →
        s.cpu.cycles.count.toNat + 7 < UInt64.size →
        ∃ cost s', engine.step s = .ok (.executed cost) s' ∧
          s'.cpu.registers.pc =
            if Manual.taken s.cpu row.mnemonic then origin + UInt16.ofNat target
            else origin + UInt16.ofNat offset + 2 := by
  rcases hbranch.row_mem with ⟨hrow, hmode⟩
  rcases Instruction.branch_of_relative hrow hmode with ⟨hsize, hbrk⟩
  rcases hbranch.assembled h with ⟨⟨hlow, hhigh⟩, hopcode, hoperand⟩
  have htarget := branchTarget_distance origin hlow hhigh
  refine ⟨?_, ?_, ?_⟩
  · rcases List.getElem?_eq_some_iff.1 hoperand with ⟨hlength, -⟩
    omega
  · intro code hcode
    rcases hcode.decode hrow hopcode (fun _ => hoperand) with ⟨operand, hdecode, hoperand'⟩
    rw [hdecode, hoperand' (by simp [hmode])]
    unfold Item.text
    simp only [hmode, hsize]
    exact congrArg (fun address => row.mnemonic.name ++ " $" ++ Hex.word address) htarget
  · -- the two bytes in place decode to the branch and give its distance
    intro σ engine s running hpc hfirst hsecond room
    have hdecoded : decode? (s.cpu.memory.get s.cpu.registers.pc) = some row := by
      rw [hfirst] at hopcode
      rw [Option.some.inj hopcode, decode?_opcode hrow]
    have hbyte : s.cpu.operandByte =
        (Int8.ofInt (Layout.distance offset target)).toUInt8 := by
      rw [hsecond] at hoperand
      exact Option.some.inj hoperand
    have hfollowing : s.cpu.following row = origin + UInt16.ofNat offset + 2 := by
      unfold Processor.following
      rw [hsize, hpc]
      rfl
    have hstep := engine.step_of_decode?_eq_some s running hdecoded room
    unfold Processor.report at hstep
    rw [if_neg hbrk] at hstep
    refine ⟨_, _, hstep, ?_⟩
    rw [Processor.next_pc]
    unfold Processor.successor
    rw [hfollowing, hbyte, htarget, Processor.branches_eq_taken]
    simp only [decide_eq_true_eq]

end

namespace Line.BranchesTo

/-- A branch over one instruction to the end of the program. -/
def overOne : String := "BCC end\nNOP\nend:"

/-- The branch, loaded so that the program ends at the last address. -/
def overOneLoaded : Array UInt8 :=
  Array.replicate 0xFFFD 0 ++ #[0x90, 0x01, 0xEA]

/-- A processor about to take the branch. -/
def overOneSession : Session Unit where
  cpu :=
    { Processor.powerUp 0xFFFD with
      memory := (Memory.zeroed.set 0xFFFD 0x90).set 0xFFFE 0x01 }
  seen := ()

theorem leads_to_label_at_the_end :
    (assemble overOne = .ok [0x90, 0x01, 0xEA] ∧
      Line.BranchesTo (Text.lines overOne.toList) ⟨0x90, .bcc, .relative, 2⟩ 0 3) ∧
      (Item.decode overOneLoaded 0xFFFD).text 0xFFFD = "BCC $0000" ∧
      ∃ cost s', ({} : Engine Unit).step overOneSession = .ok (.executed cost) s' ∧
        s'.cpu.registers.pc = 0 := by
  have hassemble : assemble overOne = .ok [0x90, 0x01, 0xEA] := rfl
  have hstatement : (Text.lines overOne.toList)[0]?.bind Line.statement? =
      some ⟨⟨0x90, .bcc, .relative, 2⟩, .label "end"⟩ := rfl
  have hlabel : (Text.lines overOne.toList)[2]?.bind Line.name? = some "end" := rfl
  have hbranch : Line.BranchesTo (Text.lines overOne.toList) ⟨0x90, .bcc, .relative, 2⟩ 0 3 :=
    .intro hstatement hlabel
  have hloaded : Holds overOneLoaded 0xFFFD [0x90, 0x01, 0xEA] := by
    intro index hindex
    have hcases : index = 0 ∨ index = 1 ∨ index = 2 := by
      simp only [List.length_cons, List.length_nil] at hindex
      omega
    unfold byteAt overOneLoaded
    rcases hcases with rfl | rfl | rfl
    · simp
    · simp
    · simp
  rcases Line.BranchesTo.leads_to_label hassemble hbranch 0xFFFD with ⟨-, hshown, htaken⟩
  refine ⟨⟨hassemble, hbranch⟩, hshown overOneLoaded hloaded, ?_⟩
  have hpc : overOneSession.cpu.registers.pc = 0xFFFD := rfl
  have hopcode : overOneSession.cpu.memory.get 0xFFFD = 0x90 := by
    simp [overOneSession, Memory.get_set]
  have hoperand : overOneSession.cpu.memory.get 0xFFFE = 0x01 := by
    simp [overOneSession]
  have hcarry : Manual.taken overOneSession.cpu .bcc := Or.inl ⟨rfl, rfl⟩
  rcases htaken {} overOneSession rfl hpc (congrArg some hopcode.symm)
    (congrArg some hoperand.symm) (by decide) with ⟨cost, s', hstep, htarget⟩
  rw [if_pos hcarry] at htarget
  exact ⟨cost, s', hstep, htarget⟩

end Line.BranchesTo

end Cpu6502
