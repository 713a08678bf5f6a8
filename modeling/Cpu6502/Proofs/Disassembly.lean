import Cpu6502.Disassembly
import Cpu6502.Processor.Memory
import Cpu6502.Proofs.Words

/-! # What the disassembler shows of loaded code

Code that is loaded at an origin is found again byte by byte, so the items the disassembler shows
are those that the bytes say. Code that consists of instructions is given by the sequence of them,
and a listing of it has one line for each.
-/

namespace Cpu6502

open Instruction

/-- The array has the bytes from the origin on. -/
def Holds (code : Array UInt8) (origin : UInt16) (bytes : List UInt8) : Prop :=
  ∀ index (h : index < bytes.length), byteAt code (origin + UInt16.ofNat index) = bytes[index]

section

variable {code : Array UInt8} {origin : UInt16} {bytes : List UInt8}

theorem Holds.byteAt (h : Holds code origin bytes) {index : Nat} {value : UInt8}
    (hvalue : bytes[index]? = some value) :
    Cpu6502.byteAt code (origin + UInt16.ofNat index) = value := by
  rcases List.getElem?_eq_some_iff.1 hvalue with ⟨hindex, hvalue⟩
  rw [h index hindex, hvalue]

/-- A row of the table whose bytes are loaded is the item at its address. -/
theorem Holds.decode (h : Holds code origin bytes) {row : Instruction} (hrow : row ∈ table)
    {index : Nat} (hopcode : bytes[index]? = some row.opcode) {operand : UInt8}
    (hoperand : row.mode ≠ .implied → bytes[index + 1]? = some operand) :
    ∃ operand', Item.decode code (origin + UInt16.ofNat index) = .instruction row operand' ∧
      (row.mode ≠ .implied → operand' = operand) := by
  refine ⟨Cpu6502.byteAt code (origin + UInt16.ofNat index + 1), ?_, ?_⟩
  · unfold Item.decode
    rw [h.byteAt hopcode, decode?_opcode hrow]
  · intro hmode
    have hnext : origin + UInt16.ofNat index + 1 = origin + UInt16.ofNat (index + 1) := by
      rw [UInt16.ofNat_add, UInt16.add_assoc]
      rfl
    rw [hnext]
    exact h.byteAt (hoperand hmode)

theorem Holds.append_left {first rest : List UInt8} (h : Holds code origin (first ++ rest)) :
    Holds code origin first := by
  intro index hindex
  exact h.byteAt (by rw [List.getElem?_append_left hindex, List.getElem?_eq_getElem hindex])

/-- The bytes after the first ones are found after them. -/
theorem Holds.append_right {first rest : List UInt8} (h : Holds code origin (first ++ rest)) :
    Holds code (origin + UInt16.ofNat first.length) rest := by
  intro index hindex
  have hbyte : (first ++ rest)[first.length + index]? = some rest[index] := by
    rw [List.getElem?_append_right (Nat.le_add_right _ _), Nat.add_sub_cancel_left,
      List.getElem?_eq_getElem hindex]
  rw [UInt16.add_assoc, ← UInt16.ofNat_add]
  exact h.byteAt hbyte

end

theorem Memory.byteAt_bytes (m : Memory) (address : UInt16) :
    byteAt m.bytes address = m.get address := by
  have hlt := address.toNat_lt
  unfold byteAt bytes get
  simp [hlt]

/-- Bytes that were loaded are found from the origin on. -/
theorem Memory.holds_of_load {m m' : Memory} {origin : UInt16} {bytes : List UInt8}
    (h : m.load origin.toUInt32 bytes = .ok m') : Holds m'.bytes origin bytes := by
  unfold load at h
  split at h
  · rename_i hfits
    cases h
    rw [UInt16.toNat_toUInt32] at hfits
    intro index hindex
    -- the bytes fit, so their addresses do not wrap around
    have haddress : (origin + UInt16.ofNat index).toNat = origin.toNat + index := by
      rw [UInt16.toNat_add, UInt16.toNat_ofNat']
      omega
    rw [Memory.byteAt_bytes, Memory.get_store, UInt16.toNat_toUInt32, haddress,
      if_pos (Nat.le_add_right _ _), Nat.add_sub_cancel_left, List.getElem?_eq_getElem hindex]
    rfl
  · cases h

/-! ## Texts -/

/-- The text of an instruction begins with its mnemonic, so it is not that of a byte of data. -/
theorem Item.not_isPrefix_text (pc : UInt16) (row : Instruction) (operand : UInt8) :
    ¬".byte".toList <+: ((Item.instruction row operand).text pc).toList := by
  have hletter : ∀ m : Mnemonic, ∃ c rest, m.name.toList = c :: rest ∧ c ≠ '.' := by
    intro m
    cases m <;> exact ⟨_, _, rfl, by decide⟩
  rcases hletter row.mnemonic with ⟨c, rest, hname, hne⟩
  have htext : ∃ rest, ((Item.instruction row operand).text pc).toList = c :: rest := by
    unfold Item.text
    cases hmode : row.mode with
    | implied => exact ⟨rest, by simp only [hmode, hname]⟩
    | immediate | zeroPage | relative => simp [hmode, hname]
  rcases htext with ⟨rest', htext⟩
  rw [htext]
  rintro ⟨after, happend⟩
  exact hne (List.cons.inj happend).1.symm

/-! ## Sequences of instructions -/

/-- A row of the table with the byte that follows the opcode, which counts only if the mode has an
operand. -/
structure Encoded where
  row : Instruction
  operand : UInt8
  mem_table : row ∈ table

namespace Encoded

/-- The instruction of an opcode with an operand byte. -/
def ofOpcode (opcode operand : UInt8) (h : (decode? opcode).isSome) : Encoded :=
  ⟨(decode? opcode).get h, operand, (decode?_eq_some (Option.some_get h).symm).1⟩

/-- Instructions with these rows and operand bytes. -/
def sequence (codes : List (Instruction × UInt8)) (h : ∀ code ∈ codes, code.1 ∈ table) :
    List Encoded :=
  codes.pmap (fun code hcode => ⟨code.1, code.2, hcode⟩) h

/-- The bytes of an instruction. -/
def bytes (e : Encoded) : List UInt8 :=
  if e.row.mode = .implied then [e.row.opcode] else [e.row.opcode, e.operand]

/-- The offset that a branch at `offset` leads to, without wrapping around. -/
def destination (e : Encoded) (offset : Nat) : Int :=
  offset + e.row.size + e.operand.toInt8.toInt

/-- The offsets at which instructions start or the last one ends. -/
def boundaries (start : Nat) : List Encoded → List Nat
  | [] => [start]
  | e :: rest => start :: boundaries (start + e.row.size) rest

theorem length_bytes (e : Encoded) : e.bytes.length = e.row.size := by
  unfold bytes Instruction.size
  cases e.row.mode <;> rfl

theorem first_bytes (e : Encoded) : e.bytes[0]? = some e.row.opcode := by
  unfold bytes
  split <;> rfl

theorem second_bytes (e : Encoded) (h : e.row.mode ≠ .implied) :
    e.bytes[1]? = some e.operand := by
  unfold bytes
  rw [if_neg h]
  rfl

theorem le_of_mem_boundaries {start : Nat} {program : List Encoded} {boundary : Nat}
    (h : boundary ∈ boundaries start program) : start ≤ boundary := by
  induction program generalizing start with
  | nil => exact Nat.le_of_eq (List.mem_singleton.1 h).symm
  | cons e rest ih =>
    rcases List.mem_cons.1 h with rfl | h
    · exact Nat.le_refl _
    · exact Nat.le_trans (Nat.le_add_right _ _) (ih h)

theorem boundaries_nodup (start : Nat) (program : List Encoded) :
    (boundaries start program).Nodup := by
  induction program generalizing start with
  | nil => exact List.nodup_cons.2 ⟨List.not_mem_nil, List.nodup_nil⟩
  | cons e rest ih =>
    refine List.nodup_cons.2 ⟨?_, ih _⟩
    intro hmem
    have hle := le_of_mem_boundaries hmem
    have hsize : 1 ≤ e.row.size := Nat.le_add_right 1 _
    omega

/-! ## Listings -/

/-- The line that shows an instruction at an address. -/
def line (pc : UInt16) (e : Encoded) : String :=
  Hex.word pc ++ "  " ++ Text.column 8 (" ".intercalate (e.bytes.map Hex.byte)) ++
    (Item.instruction e.row e.operand).text pc

/-- The lines that show instructions from an address on. -/
def lines (pc : UInt16) : List Encoded → List String
  | [] => []
  | e :: rest => e.line pc :: lines (pc + UInt16.ofNat e.row.size) rest

theorem length_lines (pc : UInt16) (program : List Encoded) :
    (lines pc program).length = program.length := by
  induction program generalizing pc with
  | nil => rfl
  | cons e rest ih => rw [lines, List.length_cons, List.length_cons, ih]

/-- Each instruction is shown at the address where those before it end. -/
theorem getElem?_lines (pc : UInt16) (program : List Encoded) (index : Nat) :
    (lines pc program)[index]? =
      program[index]?.map
        (line (pc + UInt16.ofNat ((program.take index).flatMap bytes).length)) := by
  induction program generalizing pc index with
  | nil => rfl
  | cons e rest ih =>
    cases index with
    | zero =>
      rw [lines]
      simp
    | succ index =>
      rw [lines, List.getElem?_cons_succ, ih, List.getElem?_cons_succ, List.take_succ_cons,
        List.flatMap_cons, List.length_append, e.length_bytes, UInt16.ofNat_add, UInt16.add_assoc]

end Encoded

section
variable {code : Array UInt8} {pc : UInt16} {e : Encoded}

/-- The operand byte of an instruction without an operand is not shown. -/
theorem Item.text_instruction {row : Instruction} {operand operand' : UInt8}
    (h : row.mode ≠ .implied → operand = operand') :
    (Item.instruction row operand).text pc = (Item.instruction row operand').text pc := by
  by_cases hmode : row.mode = .implied
  · unfold Item.text
    simp only [hmode]
  · rw [h hmode]

/-- An instruction whose bytes are at an address has its line there. -/
theorem Holds.listingLine (h : Holds code pc e.bytes) :
    Cpu6502.listingLine code pc = e.line pc ∧ (Item.decode code pc).length = e.row.size := by
  have hzero : pc + UInt16.ofNat 0 = pc := UInt16.add_zero pc
  rcases h.decode e.mem_table e.first_bytes e.second_bytes with ⟨operand, hdecode, hsame⟩
  rw [hzero] at hdecode
  have hlength : (Item.decode code pc).length = e.row.size := by
    rw [hdecode]
    rfl
  -- the bytes that are shown are those of the instruction
  have hraw : (List.range e.row.size).map
      (fun i => Hex.byte (Cpu6502.byteAt code (pc + UInt16.ofNat i))) = e.bytes.map Hex.byte := by
    apply List.ext_getElem
    · simp [e.length_bytes]
    · intro i hi hi'
      rw [List.length_map] at hi'
      simp [h i hi']
  refine ⟨?_, hlength⟩
  unfold Cpu6502.listingLine rawBytes Encoded.line
  rw [hlength, hraw, hdecode, Item.text_instruction hsame]

/-- The bytes that belong to an item are passed over. -/
theorem itemStartsFrom_skip (code : Array UInt8) (remaining : Nat) (pc : UInt16) (inside : Nat)
    (found : Array UInt16) :
    itemStartsFrom code (inside + remaining) pc inside found =
      itemStartsFrom code remaining (pc + UInt16.ofNat inside) 0 found := by
  induction inside generalizing pc with
  | zero =>
    have hzero : pc + UInt16.ofNat 0 = pc := UInt16.add_zero pc
    rw [Nat.zero_add, hzero]
  | succ inside ih =>
    rw [Nat.succ_add, itemStartsFrom, ih, Nat.add_comm inside, UInt16.ofNat_add,
      ← UInt16.add_assoc]
    rfl

/-- A listing of code that consists of instructions has one line for each, in order. -/
theorem Holds.listing {program : List Encoded} (h : Holds code pc (program.flatMap Encoded.bytes)) :
    Cpu6502.listing code pc (program.flatMap Encoded.bytes).length =
      (Encoded.lines pc program).toArray := by
  induction program generalizing pc with
  | nil => simp [Cpu6502.listing, itemStarts, itemStartsFrom, Encoded.lines]
  | cons e rest ih =>
    rw [List.flatMap_cons] at h
    have hrest := ih (by simpa [e.length_bytes] using h.append_right)
    rcases h.append_left.listingLine with ⟨hline, hlength⟩
    -- the operand byte, if there is one, starts no item
    have hsize : (e.bytes ++ rest.flatMap Encoded.bytes).length =
        e.row.mode.operandLength + (rest.flatMap Encoded.bytes).length + 1 := by
      rw [List.length_append, e.length_bytes, Instruction.size]
      omega
    have hstep : pc + 1 + UInt16.ofNat e.row.mode.operandLength =
        pc + UInt16.ofNat e.row.size := by
      rw [Instruction.size, UInt16.ofNat_add, ← UInt16.add_assoc]
      rfl
    unfold Cpu6502.listing itemStarts at hrest ⊢
    rw [List.flatMap_cons, hsize, itemStartsFrom, hlength, Instruction.size,
      Nat.add_sub_cancel_left, itemStartsFrom_skip, hstep, itemStartsFrom_eq_append,
      Array.map_append, hrest, Encoded.lines, ← hline]
    simp

end

/-! ## Code that differs elsewhere -/

/-- The listing shows the byte at the address: it belongs to one of the items. -/
def Visits (code : Array UInt8) (start : UInt16) (length : Nat) (address : UInt16) : Prop :=
  ∃ pc ∈ itemStarts code start length, ∃ index < (Item.decode code pc).length,
    address = pc + UInt16.ofNat index

section
variable {code code' : Array UInt8}

theorem Item.length_of_decode? {pc : UInt16} {row : Instruction}
    (h : decode? (byteAt code pc) = some row) : (Item.decode code pc).length = row.size := by
  unfold Item.decode
  rw [h]
  rfl

/-- An item depends on its own bytes alone. -/
theorem Item.listingLine_congr {pc : UInt16}
    (h : ∀ index < (Item.decode code pc).length,
      byteAt code' (pc + UInt16.ofNat index) = byteAt code (pc + UInt16.ofNat index)) :
    (Item.decode code' pc).length = (Item.decode code pc).length ∧
      listingLine code' pc = listingLine code pc := by
  have hpositive : 0 < (Item.decode code pc).length := by
    cases Item.decode code pc with
    | instruction row operand => exact Nat.lt_of_lt_of_le Nat.zero_lt_one (Nat.le_add_right 1 _)
    | data value => exact Nat.zero_lt_one
  have hopcode : byteAt code' pc = byteAt code pc := by
    have hfirst := h 0 hpositive
    rwa [show pc + UInt16.ofNat 0 = pc from UInt16.add_zero pc] at hfirst
  have hsame : (Item.decode code' pc).length = (Item.decode code pc).length ∧
      (Item.decode code' pc).text pc = (Item.decode code pc).text pc := by
    unfold Item.decode at h ⊢
    rw [hopcode]
    cases hdecoded : decode? (byteAt code pc) with
    | none => exact ⟨rfl, rfl⟩
    | some row =>
      refine ⟨rfl, Item.text_instruction ?_⟩
      intro hmode
      -- the mode has an operand byte, so that byte belongs to the item
      rw [hdecoded] at h
      refine h 1 ?_
      show 1 < 1 + row.mode.operandLength
      cases hrow : row.mode with
      | implied => exact absurd hrow hmode
      | immediate | zeroPage | relative => decide
  refine ⟨hsame.1, ?_⟩
  have hraw : rawBytes code' pc = rawBytes code pc := by
    unfold rawBytes
    rw [hsame.1]
    congr 1
    apply List.map_congr_left
    intro index hindex
    rw [h index (List.mem_range.1 hindex)]
  unfold listingLine
  rw [hraw, hsame.2]

theorem itemStartsFrom_congr {remaining : Nat} {pc : UInt16} {inside : Nat}
    (h : ∀ start ∈ itemStartsFrom code remaining pc inside #[],
      (Item.decode code' start).length = (Item.decode code start).length) :
    itemStartsFrom code' remaining pc inside #[] =
      itemStartsFrom code remaining pc inside #[] := by
  induction remaining generalizing pc inside with
  | zero => rfl
  | succ remaining ih =>
    cases inside with
    | succ inside => exact ih h
    | zero =>
      have hsplit := itemStartsFrom_eq_append code remaining (pc + 1)
        ((Item.decode code pc).length - 1) (#[].push pc)
      rw [itemStartsFrom, hsplit] at h
      rw [itemStartsFrom, itemStartsFrom, hsplit, h pc (by simp),
        itemStartsFrom_eq_append code' remaining, ih]
      intro start hstart
      exact h start (Array.mem_append_right _ hstart)

/-- A listing depends on the bytes that it shows. -/
theorem listing_congr {start : UInt16} {length : Nat}
    (h : ∀ address, Visits code start length address →
      byteAt code' address = byteAt code address) :
    listing code' start length = listing code start length := by
  have hitems : ∀ pc ∈ itemStarts code start length,
      (Item.decode code' pc).length = (Item.decode code pc).length ∧
        listingLine code' pc = listingLine code pc := by
    intro pc hpc
    apply Item.listingLine_congr
    intro index hindex
    exact h _ ⟨pc, hpc, index, hindex, rfl⟩
  have hstarts : itemStarts code' start length = itemStarts code start length :=
    itemStartsFrom_congr fun pc hpc => (hitems pc hpc).1
  unfold listing
  rw [hstarts]
  exact Array.map_congr_left fun pc hpc => (hitems pc hpc).2

end

end Cpu6502
