import Cpu6502.Proofs.Assembly.Layout
import Cpu6502.Proofs.Disassembly

/-! # What assembled code consists of

The assembler goes over a source twice, once for the sizes and once for the bytes, and a listing
goes over the bytes a third time. The three keep in step: the code consists of one chunk for each
statement, the value of a label is the size of the chunks before it, and a listing of the loaded
code has one line for each chunk.

What a chunk has to be is said of the words of its statement (`Statement.Encodes`), without the
rows and the operands that the assembler finds on the way.
-/

namespace Cpu6502

open Instruction

/-! ## Statements as words -/

namespace Line

/-- The words of the statement of a line; a line without a statement has none. -/
def words (text : List Char) : List (List Char) :=
  Text.words (ofText text).body

/-- The statements of lines, each of them as its words. -/
def statements (lines : List (List Char)) : List (List (List Char)) :=
  (lines.map words).filter (· ≠ [])

variable {text : List Char} {lines : List (List Char)}

theorem statements_cons_of_nil (h : words text = []) :
    statements (text :: lines) = statements lines := by
  unfold statements
  rw [List.map_cons, List.filter_cons_of_neg (by simp [h])]

theorem statements_cons_of_ne_nil (h : words text ≠ []) :
    statements (text :: lines) = words text :: statements lines := by
  unfold statements
  rw [List.map_cons, List.filter_cons_of_pos (by simpa using h)]

end Line

/-! ## Rows -/

/-- The table has one row for a mnemonic in a mode, however the mnemonic is spelled. -/
theorem Instruction.eq_of_name_of_mode {row row' : Instruction} (hrow : row ∈ table)
    (hrow' : row' ∈ table) (hname : row'.mnemonic.name.toList = row.mnemonic.name.toList)
    (hmode : row'.mode = row.mode) : row' = row := by
  have hall : ∀ row ∈ table, ∀ row' ∈ table,
      row'.mnemonic.name.toList = row.mnemonic.name.toList → row'.mode = row.mode →
        row' = row := by decide
  exact hall row hrow row' hrow' hname hmode

/-! ## What encodes a statement -/

namespace Statement

/-- What the operand of a statement calls for, where the statement has the given mnemonic and
`offset` bytes before it: an addressing mode, and the operand byte if the mode has one. A label
calls for the distance to it from the end of the statement, as a signed byte. -/
inductive CallsFor (labels : String → Option Nat) (mnemonic : Mnemonic) (offset : Nat) :
    List (List Char) → AddressingMode → List UInt8 → Prop where
  | implied : CallsFor labels mnemonic offset [] .implied []
  | immediate {digits : List Char} {value : UInt8} (read : Hex.byte? digits = some value) :
      CallsFor labels mnemonic offset ['#' :: '$' :: digits] .immediate [value]
  | displacement {digits : List Char} {value : UInt8} (branch : mnemonic = .bcc ∨ mnemonic = .bcs)
      (read : Hex.byte? digits = some value) :
      CallsFor labels mnemonic offset ['$' :: digits] .relative [value]
  | zeroPage {digits : List Char} {value : UInt8} (other : ¬(mnemonic = .bcc ∨ mnemonic = .bcs))
      (read : Hex.byte? digits = some value) :
      CallsFor labels mnemonic offset ['$' :: digits] .zeroPage [value]
  | label {name : List Char} {target : Nat} {value : UInt8} (identifier : isIdentifier name)
      (defined : labels (String.ofList name) = some target)
      (near : -128 ≤ (target : Int) - (offset + 2) ∧ (target : Int) - (offset + 2) ≤ 127)
      (reaches : value.toInt8.toInt = target - (offset + 2)) :
      CallsFor labels mnemonic offset [name] .relative [value]

/-- The bytes that encode a statement with `offset` bytes before it: the opcode of the one row that
has its mnemonic, spelled in any case of letters, and the mode that its operand calls for; and the
operand byte. -/
inductive Encodes (labels : String → Option Nat) (offset : Nat) :
    List (List Char) → List UInt8 → Prop where
  | intro {mnemonic : List Char} {operand : List (List Char)} {row : Instruction}
      {bytes : List UInt8} (mem_table : row ∈ table)
      (spelled : row.mnemonic.name.toList = mnemonic.map Char.toUpper)
      (unique : ∀ row' ∈ table, row'.mnemonic.name.toList = mnemonic.map Char.toUpper →
        row'.mode = row.mode → row' = row)
      (operand_calls : CallsFor labels row.mnemonic offset operand row.mode bytes) :
      Encodes labels offset (mnemonic :: operand) (row.opcode :: bytes)

/-- Statements that follow one another are encoded by chunks that follow one another, the first of
them with `offset` bytes before it. -/
inductive EncodeInOrder (labels : String → Option Nat) :
    Nat → List (List (List Char)) → List (List UInt8) → Prop where
  | nil (offset : Nat) : EncodeInOrder labels offset [] []
  | cons {offset : Nat} {words : List (List Char)} {chunk : List UInt8}
      {statements : List (List (List Char))} {chunks : List (List UInt8)}
      (first : Encodes labels offset words chunk)
      (rest : EncodeInOrder labels (offset + chunk.length) statements chunks) :
      EncodeInOrder labels offset (words :: statements) (chunk :: chunks)

variable {labels : String → Option Nat} {mnemonic : Mnemonic} {offset : Nat}
  {words operand : List (List Char)} {chunk bytes : List UInt8}

theorem EncodeInOrder.length_eq {statements : List (List (List Char))}
    {chunks : List (List UInt8)} (h : EncodeInOrder labels offset statements chunks) :
    chunks.length = statements.length := by
  induction h with
  | nil => rfl
  | cons first rest ih => rw [List.length_cons, List.length_cons, ih]

/-! ## Chunks as instructions -/

/-- An operand calls for a byte unless the mode is implied. -/
theorem CallsFor.bytes_eq {mode : AddressingMode}
    (h : CallsFor labels mnemonic offset operand mode bytes) :
    if mode = .implied then bytes = [] else ∃ value, bytes = [value] := by
  cases h with
  | implied => rfl
  | immediate | displacement | zeroPage | label => exact ⟨_, rfl⟩

theorem Encodes.exists_encoded (h : Encodes labels offset words chunk) :
    ∃ e : Encoded, e.bytes = chunk := by
  rcases h with ⟨mem_table, -, -, operand_calls⟩
  rename_i row bytes
  have hbytes := operand_calls.bytes_eq
  by_cases hmode : row.mode = .implied
  · rw [if_pos hmode] at hbytes
    refine ⟨⟨row, 0, mem_table⟩, ?_⟩
    rw [Encoded.bytes, if_pos hmode, hbytes]
  · rw [if_neg hmode] at hbytes
    rcases hbytes with ⟨value, rfl⟩
    refine ⟨⟨row, value, mem_table⟩, ?_⟩
    rw [Encoded.bytes, if_neg hmode]

theorem EncodeInOrder.exists_program {statements : List (List (List Char))}
    {chunks : List (List UInt8)} (h : EncodeInOrder labels offset statements chunks) :
    ∃ program : List Encoded, program.map Encoded.bytes = chunks := by
  induction h with
  | nil => exact ⟨[], rfl⟩
  | cons first rest ih =>
    rcases first.exists_encoded with ⟨e, rfl⟩
    rcases ih with ⟨program, rfl⟩
    exact ⟨e :: program, rfl⟩

/-! ## Statements are encoded as their words say -/

variable {layout : Layout} {line : Nat} {statement : Statement}

/-- The operand byte of a statement is what its operand calls for. -/
theorem callsFor_of_encode (hwritten : statement.argument.Written operand)
    (h : layout.encode ⟨line, offset, statement⟩ = .ok chunk) (mnemonic : Mnemonic) :
    ∃ bytes, chunk = statement.instruction.opcode :: bytes ∧
      CallsFor layout.offset? mnemonic offset operand (statement.argument.mode mnemonic) bytes := by
  obtain ⟨instruction, argument⟩ := statement
  unfold Layout.encode at h
  cases hwritten with
  | none =>
    cases h
    exact ⟨[], rfl, .implied⟩
  | immediate read =>
    cases h
    exact ⟨_, rfl, .immediate read⟩
  | byte read =>
    cases h
    refine ⟨_, rfl, ?_⟩
    have hbranch := Instruction.relative_mem_modesOf_iff mnemonic
    unfold Argument.mode
    dsimp only
    split
    · rename_i hmem
      exact .displacement (hbranch.1 hmem) read
    · rename_i hmem
      exact .zeroPage (mt hbranch.2 hmem) read
  | label identifier =>
    dsimp only at h
    split at h
    · cases h
    · rename_i target hdefined
      split at h
      · rename_i hnear
        cases h
        refine ⟨_, rfl, .label identifier hdefined hnear ?_⟩
        rw [Int8.toInt8_toUInt8, Int8.toInt_ofInt_of_le hnear.1 (by omega)]
        rfl
      · cases h

theorem encodes_of_encode {body : List Char} (hbody : ofBody body = .ok (some statement))
    (h : layout.encode ⟨line, offset, statement⟩ = .ok chunk) :
    Encodes layout.offset? offset (Text.words body) chunk := by
  rcases exists_parts_of_ofBody hbody with ⟨mnemonic, operand, argument, hwords, hwritten, hparts⟩
  rcases of_ofParts hparts with ⟨rfl, hformed, hspelled⟩
  rcases callsFor_of_encode hwritten h statement.instruction.mnemonic with ⟨bytes, rfl, hcalls⟩
  rw [← hformed.mode] at hcalls
  rw [hwords]
  refine .intro hformed.mem_table hspelled ?_ hcalls
  intro row' hrow' hspelled' hmode
  exact Instruction.eq_of_name_of_mode hformed.mem_table hrow' (hspelled'.trans hspelled.symm) hmode

end Statement

namespace Layout

variable {layout : Layout} {number start : Nat} {lines : List (List Char)}
  {chunks : List (List UInt8)}

/-- The chunks of lines encode the statements of the lines. -/
theorem encodeInOrder_of_encode (hreadable : ∀ text ∈ lines, Line.Readable text)
    (h : (placements number start lines).map layout.encode = chunks.map .ok) :
    Statement.EncodeInOrder layout.offset? start (Line.statements lines) chunks := by
  induction lines generalizing number start chunks with
  | nil =>
    rw [List.map_eq_nil_iff.1 h.symm]
    exact .nil start
  | cons text rest ih =>
    rcases List.forall_mem_cons.1 hreadable with ⟨htext, hrest⟩
    have hbody := htext.body
    rw [placements, List.map_append] at h
    unfold Line.size at h
    cases hstatement : Line.statement? text with
    | none =>
      -- a line without a statement takes no bytes
      rw [hstatement] at h hbody
      rw [Line.statements_cons_of_nil (Statement.words_of_ofBody_none hbody)]
      exact ih hrest h
    | some statement =>
      rw [hstatement] at h hbody
      cases chunks with
      | nil => cases h
      | cons chunk chunks =>
        rcases List.cons.inj h with ⟨hchunk, hchunks⟩
        have hlength := length_of_encode hchunk (Line.wellFormed hstatement)
        have hwords : Line.words text ≠ [] := by
          rcases Statement.exists_parts_of_ofBody hbody with ⟨mnemonic, operand, -, hwords, -⟩
          unfold Line.words
          rw [hwords]
          exact List.cons_ne_nil mnemonic operand
        rw [Line.statements_cons_of_ne_nil hwords]
        refine .cons (Statement.encodes_of_encode hbody hchunk) ?_
        rw [hlength]
        exact ih hrest hchunks

/-- The bytes before a line are those of the statements before it. -/
theorem offset_eq_length_take (hreadable : ∀ text ∈ lines, Line.Readable text)
    (h : (placements number start lines).map layout.encode = chunks.map .ok) (index : Nat) :
    Line.offset lines index =
      (chunks.take (Line.statements (lines.take index)).length).flatten.length := by
  have hsplit := placements_append number start (lines.take index) (lines.drop index)
  rw [List.take_append_drop] at hsplit
  rw [hsplit, List.map_append] at h
  rcases List.map_eq_append_iff.1 h.symm with ⟨before, after, rfl, hbefore, -⟩
  have hlength := (encodeInOrder_of_encode
    (fun text hmem => hreadable text (List.mem_of_mem_take hmem)) hbefore.symm).length_eq
  rw [← hlength, List.take_left, length_flatten_of_encode hbefore.symm]
  rfl

end Layout

/-! ## Chunks and listings -/

/-- A listing of chunks that are loaded at an origin has one line for each: the address and the
bytes of the chunk and the text of an instruction, and not the one for a byte of data. -/
structure ListsInOrder (listing : Array String) (origin : UInt16) (chunks : List (List UInt8)) :
    Prop where
  size_eq : listing.size = chunks.length
  line : ∀ index chunk, chunks[index]? = some chunk →
    let pc := origin + UInt16.ofNat (chunks.take index).flatten.length
    ∃ e : Encoded, e.bytes = chunk ∧ listing[index]? = some (e.line pc) ∧
      ¬".byte".toList <+: ((Item.instruction e.row e.operand).text pc).toList

/-- The code of a source, parted into chunks: there is one for each statement, which it encodes;
labels stand between them; and they are what a listing shows. -/
structure Chunking (lines : List (List Char)) (layout : Layout) (chunks : List (List UInt8)) :
    Prop where
  laid_out : Layout.ofLines lines = .ok layout
  length_eq : chunks.length = (Line.statements lines).length
  encode : Statement.EncodeInOrder layout.offset? 0 (Line.statements lines) chunks
  labels : ∀ name value, layout.offset? name = some value ↔
    ∃ index, lines[index]?.bind Line.name? = some name ∧
      value = (chunks.take (Line.statements (lines.take index)).length).flatten.length
  listing : ∀ (memory memory' : Memory) origin,
    memory.load origin.toUInt32 chunks.flatten = .ok memory' →
      ListsInOrder (listing memory'.bytes origin chunks.flatten.length) origin chunks

theorem Holds.listsInOrder {code : Array UInt8} {origin : UInt16} {program : List Encoded}
    (h : Holds code origin (program.flatMap Encoded.bytes)) :
    ListsInOrder (Cpu6502.listing code origin (program.flatMap Encoded.bytes).length) origin
      (program.map Encoded.bytes) := by
  rw [h.listing]
  constructor
  · rw [List.size_toArray, Encoded.length_lines, List.length_map]
  · intro index chunk hchunk
    rw [List.getElem?_map, Option.map_eq_some_iff] at hchunk
    rcases hchunk with ⟨e, he, rfl⟩
    refine ⟨e, rfl, ?_, Item.not_isPrefix_text _ _ _⟩
    rw [List.getElem?_toArray, Encoded.getElem?_lines, he, List.flatMap_def, ← List.map_take]
    rfl

/-- A source that assembles is parted into the chunks of its statements, and a listing shows them
again wherever they are loaded. -/
theorem exists_chunking_of_assemble {source : String} {bytes : List UInt8}
    (h : assemble source = .ok bytes) :
    ∃ layout chunks, bytes = chunks.flatten ∧
      Chunking (Text.lines source.toList) layout chunks := by
  rcases assemble_eq_ok_iff.1 h with ⟨chunks, hreadable, hnodup, hencode, rfl⟩
  have horder := Layout.encodeInOrder_of_encode hreadable hencode
  refine ⟨_, chunks, rfl, Layout.ofLines_eq_ok_iff.2 ⟨hreadable, hnodup, rfl⟩, horder.length_eq,
    horder, ?_, ?_⟩
  · intro name value
    have hoffset := Layout.offset_eq_length_take hreadable hencode
    constructor
    · intro hvalue
      rcases Layout.mem_definitions.1 (Layout.mem_definitions_of_offset? hvalue) with
        ⟨index, text, hline, hname, rfl⟩
      refine ⟨index, Option.bind_eq_some_iff.2 ⟨text, hline, hname⟩, ?_⟩
      rw [Nat.zero_add, hoffset]
    · rintro ⟨index, hdefined, rfl⟩
      rcases Option.bind_eq_some_iff.1 hdefined with ⟨text, hline, hname⟩
      refine Layout.offset?_read hnodup (Layout.mem_definitions.2 ⟨index, text, hline, hname, ?_⟩)
      rw [Nat.zero_add, hoffset]
  · intro memory memory' origin hload
    have hholds := Memory.holds_of_load hload
    rcases horder.exists_program with ⟨program, rfl⟩
    rw [← List.flatMap_def] at hholds ⊢
    exact hholds.listsInOrder

/-- A loop with a branch back and a branch to the end. -/
def loopSource : String :=
  "; up\nloop: lda #$5\n  Inc $10 ; again\n\nBCC loop\nbcs end\nBRK\nend:"

def loopCode : List UInt8 :=
  [0xA9, 0x05, 0xE6, 0x10, 0x90, 0xFA, 0xB0, 0x01, 0x00]

/-- The loop at the end of memory. -/
def loopLoaded : Memory :=
  Memory.zeroed.store 0xFFF7 loopCode

theorem exists_chunking_of_loop :
    (assemble loopSource = .ok loopCode ∧
      Memory.zeroed.load (0xFFF7 : UInt16).toUInt32 loopCode = .ok loopLoaded) ∧
      ∃ layout chunks, loopCode = chunks.flatten ∧
        Chunking (Text.lines loopSource.toList) layout chunks ∧
        ListsInOrder (listing loopLoaded.bytes 0xFFF7 9) 0xFFF7 chunks := by
  have hassemble : assemble loopSource = .ok loopCode := by
    set_option maxRecDepth 2000 in rfl
  have hload : Memory.zeroed.load (0xFFF7 : UInt16).toUInt32 loopCode = .ok loopLoaded := rfl
  rcases exists_chunking_of_assemble hassemble with ⟨layout, chunks, hflatten, hchunking⟩
  have hlisting := hchunking.listing Memory.zeroed loopLoaded 0xFFF7 (hflatten ▸ hload)
  rw [← hflatten] at hlisting
  exact ⟨⟨hassemble, hload⟩, layout, chunks, hflatten, hchunking, hlisting⟩

end Cpu6502
