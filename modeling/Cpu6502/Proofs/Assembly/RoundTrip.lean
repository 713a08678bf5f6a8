import Cpu6502.Proofs.Assembly.Branches

/-! # Disassembling and assembling again

Loaded code that consists of instructions can be written as a source again. Each instruction is
written as the disassembler shows it, except for branches, whose operand is the distance or, where
the branch leads to the start of an instruction or to the end of the code, a label. Labels are
defined at the places that branches are written with, on lines of their own or before the
instruction. However the choice is made, the source assembles to the code.
-/

namespace Cpu6502

open Instruction

/-! ## Lines that belong together -/

/-- The lines, which `start` bytes stand before, are read back as they are; they define the label,
if one is given, and then hold the statement, if one is given. -/
structure Line.Says (start : Nat) (lines : List (List Char)) (name : Option String)
    (statement : Option Statement) : Prop where
  isLine : ∀ text ∈ lines, Text.IsLine text
  readable : ∀ text ∈ lines, Line.Readable text
  definitions : Layout.definitions start lines = (name.map fun name => (name, start)).toList
  placements : ∀ number, ∃ line, Layout.placements number start lines =
    (statement.map fun statement => ⟨line, start, statement⟩).toList
  size : Line.totalSize lines = (statement.map (·.instruction.size)).getD 0

namespace Line

variable {start : Nat} {statement : Statement} {label gap : List Char}

/-- One line says what its parts say. -/
theorem says_of_parts {text body : List Char} {label : Option (List Char)}
    {statement : Option Statement} (hline : Text.IsLine text)
    (hparts : ofText text = ⟨label, body⟩) (hlabel : ∀ l ∈ label, isIdentifier l)
    (hbody : Statement.ofBody body = .ok statement) :
    Says start [text] (label.map String.ofList) statement := by
  rcases readable_of_parts hparts hlabel hbody with ⟨hreadable, hname, hstatement⟩
  refine ⟨?_, ?_, ?_, ?_, ?_⟩
  · simpa using hline
  · simpa using hreadable
  · simp [Layout.definitions, hname]
  · intro number
    refine ⟨number, ?_⟩
    simp [Layout.placements, hstatement]
  · simp [size, hstatement]

/-- A statement on a line of its own. -/
theorem says_statement (hformed : statement.WellFormed) (h : statement.argument.Writable) :
    Says start [statement.text] none (some statement) := by
  have hbody := Statement.isBody_text h
  exact says_of_parts hbody.isLine (ofText_body hbody) (by simp)
    (Statement.ofBody_text hformed h)

/-- A label on a line of its own. -/
theorem says_label (h : isIdentifier label) :
    Says start [label ++ [':']] (some (String.ofList label)) none := by
  have hword := IsWord.of_isIdentifier h
  have hline : Text.IsLine (label ++ [':']) := by
    refine ⟨by simp, ?_, by simp⟩
    intro hmem
    rcases List.mem_append.1 hmem with hmem | hmem
    · exact hword.isBody.not_mem (by decide) (by decide) hmem
    · exact absurd hmem (by decide)
  exact says_of_parts hline (ofText_label hword) (by simpa using h) Statement.ofBody_nil

/-- A label before a statement. -/
theorem says_label_statement (hlabel : isIdentifier label)
    (hgap : ∀ c ∈ gap, Text.isBlank c ∧ c ≠ '\n') (hformed : statement.WellFormed)
    (h : statement.argument.Writable) :
    Says start [label ++ ':' :: (gap ++ statement.text)] (some (String.ofList label))
      (some statement) := by
  have hword := IsWord.of_isIdentifier hlabel
  have hbody := Statement.isBody_text h
  have hnewline : '\n' ∉ label ++ ':' :: gap := by
    intro hmem
    rcases List.mem_append.1 hmem with hmem | hmem
    · exact hword.isBody.not_mem (by decide) (by decide) hmem
    · rcases List.mem_cons.1 hmem with heq | hmem
      · exact absurd heq (by decide)
      · exact (hgap _ hmem).2 rfl
  have hline := hbody.isLine_append hnewline
  rw [List.append_assoc, List.cons_append] at hline
  exact says_of_parts hline (ofText_label_body hword (fun c hc => (hgap c hc).1) hbody)
    (by simpa using hlabel) (Statement.ofBody_text hformed h)

/-- A label on a line of its own and a statement on the next. -/
theorem Says.append {lines lines' : List (List Char)} {name : Option String}
    {statement : Option Statement} (h : Says start lines name none)
    (h' : Says start lines' none statement) : Says start (lines ++ lines') name statement := by
  have hsize : totalSize lines = 0 := h.size
  refine ⟨?_, ?_, ?_, ?_, ?_⟩
  · intro text hmem
    rcases List.mem_append.1 hmem with hmem | hmem
    · exact h.isLine text hmem
    · exact h'.isLine text hmem
  · intro text hmem
    rcases List.mem_append.1 hmem with hmem | hmem
    · exact h.readable text hmem
    · exact h'.readable text hmem
  · -- the label takes no bytes, so the statement has the same offset
    rw [Layout.definitions_append, hsize, Nat.add_zero, h.definitions, h'.definitions]
    exact List.append_nil _
  · intro number
    rcases h.placements number with ⟨line, hfirst⟩
    rcases h'.placements (number + lines.length) with ⟨line', hsecond⟩
    refine ⟨line', ?_⟩
    rw [Layout.placements_append, hsize, Nat.add_zero, hfirst, hsecond]
    rfl
  · rw [totalSize_append, hsize, Nat.zero_add, h'.size]

end Line

/-! ## The source -/

/-- A program, where it is loaded, and how it is to be written. -/
structure LabelledProgram where
  program : List Encoded
  /-- The memory that the program is loaded into. -/
  code : Array UInt8
  origin : UInt16
  /-- The name of the label at an offset. -/
  name : Nat → String
  /-- Whether the branch at an offset is to be written with a label, where one can be. -/
  symbolic : Nat → Bool
  /-- What stands between the label at an offset and the instruction; if nothing is given, the label
  stands on a line of its own. -/
  gap : Nat → Option String

namespace LabelledProgram

variable (p : LabelledProgram)

/-- The bytes of the program. -/
def bytes : List UInt8 :=
  p.program.flatMap Encoded.bytes

/-- The offset of the label that an instruction is written with, if it is. -/
def target? (offset : Nat) (e : Encoded) : Option Nat :=
  if e.row.mode = .relative ∧ p.symbolic offset then
    (Encoded.boundaries 0 p.program).find? fun boundary => (boundary : Int) = e.destination offset
  else none

/-- The labels that the instructions from an offset on are written with. -/
def targetsFrom (start : Nat) : List Encoded → List Nat
  | [] => []
  | e :: rest => (p.target? start e).toList ++ targetsFrom (start + e.row.size) rest

/-- The offsets at which labels are defined. -/
def targets : List Nat :=
  p.targetsFrom 0 p.program

/-- The text of an instruction. -/
def text (offset : Nat) (e : Encoded) : String :=
  let shown := (Item.decode p.code (p.origin + UInt16.ofNat offset)).text
    (p.origin + UInt16.ofNat offset)
  if e.row.mode = .relative then
    match p.target? offset e with
    | some target => e.row.mnemonic.name ++ " " ++ p.name target
    | none => e.row.mnemonic.name ++ " $" ++ Hex.byte e.operand
  else shown

/-- The lines for an instruction. -/
def itemLines (offset : Nat) (e : Encoded) : List String :=
  if offset ∈ p.targets then
    match p.gap offset with
    | some gap => [p.name offset ++ ":" ++ gap ++ p.text offset e]
    | none => [p.name offset ++ ":", p.text offset e]
  else [p.text offset e]

/-- The lines for the instructions from an offset on, and for the label at the end. -/
def linesFrom (start : Nat) : List Encoded → List String
  | [] => if start ∈ p.targets then [p.name start ++ ":"] else []
  | e :: rest => p.itemLines start e ++ linesFrom (start + e.row.size) rest

/-- The lines joined to a source. -/
def source : String :=
  "\n".intercalate (p.linesFrom 0 p.program)

/-- The program is loaded, and the labels and the gaps can be told apart from what is around
them. -/
structure Valid : Prop where
  loaded : Holds p.code p.origin p.bytes
  identifier : ∀ target ∈ p.targets, isIdentifier (p.name target).toList
  injective : ∀ target ∈ p.targets, ∀ target' ∈ p.targets,
    p.name target = p.name target' → target = target'
  blank : ∀ target gap, p.gap target = some gap →
    ∀ c ∈ gap.toList, Text.isBlank c ∧ c ≠ '\n'

/-! ## Reading the lines back -/

/-- The statement that an instruction is written as. -/
def statement (offset : Nat) (e : Encoded) : Statement where
  instruction := e.row
  argument :=
    match e.row.mode with
    | .implied => .none
    | .immediate => .immediate e.operand
    | .zeroPage => .byte e.operand
    | .relative =>
      match p.target? offset e with
      | some target => .label (p.name target)
      | none => .byte e.operand

variable {p} {start : Nat} {e : Encoded} {rest : List Encoded}

theorem wellFormed_statement : (p.statement start e).WellFormed := by
  have hbranch := mode_eq_relative_iff e.mem_table
  refine ⟨e.mem_table, ?_⟩
  show e.row.mode = (p.statement start e).argument.mode e.row.mnemonic
  unfold statement
  dsimp only
  cases hmode : e.row.mode with
  | implied | immediate => rfl
  | zeroPage =>
    rw [hmode] at hbranch
    exact (if_neg (mt hbranch.2 nofun)).symm
  | relative =>
    dsimp only
    split
    · rfl
    · exact (if_pos (hbranch.1 hmode)).symm

/-- The instructions `rest` are those of the program from the offset `start` on. -/
structure IsAt (p : LabelledProgram) (start : Nat) (rest : List Encoded) : Prop where
  bytes : p.bytes.drop start = rest.flatMap Encoded.bytes
  targets : ∀ target ∈ p.targetsFrom start rest, target ∈ p.targets

theorem isAt_zero (p : LabelledProgram) : p.IsAt 0 p.program :=
  ⟨rfl, fun _ h => h⟩

theorem IsAt.next (h : p.IsAt start (e :: rest)) : p.IsAt (start + e.row.size) rest := by
  constructor
  · rw [← List.drop_drop, h.bytes, List.flatMap_cons, ← e.length_bytes, List.drop_left]
  · intro target hmem
    exact h.targets target (List.mem_append_right _ hmem)

theorem IsAt.target (h : p.IsAt start (e :: rest)) {target : Nat}
    (htarget : p.target? start e = some target) : target ∈ p.targets := by
  apply h.targets
  rw [targetsFrom, htarget]
  exact List.mem_append_left _ (List.mem_singleton_self _)

theorem IsAt.writable (hp : p.Valid) (h : p.IsAt start (e :: rest)) :
    (p.statement start e).argument.Writable := by
  intro name hname
  unfold statement at hname
  dsimp only at hname
  cases hmode : e.row.mode with
  | implied | immediate | zeroPage =>
    rw [hmode] at hname
    cases hname
  | relative =>
    rw [hmode] at hname
    dsimp only at hname
    split at hname
    · rename_i target htarget
      cases hname
      exact hp.identifier target (h.target htarget)
    · cases hname

/-- The disassembler finds the instruction at its address. -/
theorem IsAt.decode (hp : p.Valid) (h : p.IsAt start (e :: rest)) :
    ∃ operand, Item.decode p.code (p.origin + UInt16.ofNat start) = .instruction e.row operand ∧
      (e.row.mode ≠ .implied → operand = e.operand) := by
  -- from the offset on the bytes are those of the instruction and of the rest
  have hbytes : ∀ index, p.bytes[start + index]? =
      (e.bytes ++ rest.flatMap Encoded.bytes)[index]? := by
    intro index
    rw [← List.getElem?_drop, h.bytes, List.flatMap_cons]
  refine hp.loaded.decode e.mem_table ?_ ?_
  · rw [← Nat.add_zero start, hbytes]
    unfold Encoded.bytes
    split <;> rfl
  · intro hmode
    rw [hbytes]
    unfold Encoded.bytes
    rw [if_neg hmode]
    rfl

/-- The text of an instruction is that of its statement. -/
theorem IsAt.text (hp : p.Valid) (h : p.IsAt start (e :: rest)) :
    (p.text start e).toList = (p.statement start e).text := by
  rcases h.decode hp with ⟨operand, hdecode, hoperand⟩
  unfold LabelledProgram.text statement Statement.text
  dsimp only
  rw [hdecode]
  unfold Item.text
  cases hmode : e.row.mode with
  | implied => simp [hmode]
  | immediate =>
    rw [hoperand (by simp [hmode])]
    simp [hmode, Argument.word, Hex.byte]
  | zeroPage =>
    rw [hoperand (by simp [hmode])]
    simp [hmode, Argument.word, Hex.byte]
  | relative =>
    cases p.target? start e with
    | none => simp [Argument.word, Hex.byte]
    | some target => simp [Argument.word]

/-- The name of the label at an offset, if one is defined there. -/
def nameAt? (p : LabelledProgram) (offset : Nat) : Option String :=
  if offset ∈ p.targets then some (p.name offset) else none

/-- The lines of an instruction say its label and its statement. -/
theorem IsAt.itemLines (hp : p.Valid) (h : p.IsAt start (e :: rest)) :
    Line.Says start ((p.itemLines start e).map String.toList) (p.nameAt? start)
      (some (p.statement start e)) := by
  have htext := h.text hp
  have hformed : (p.statement start e).WellFormed := wellFormed_statement
  have hstatement : Line.Says start [(p.statement start e).text] none _ :=
    Line.says_statement hformed (h.writable hp)
  unfold LabelledProgram.itemLines nameAt?
  by_cases hmem : start ∈ p.targets
  · rw [if_pos hmem, if_pos hmem]
    have hname := hp.identifier start hmem
    cases hgap : p.gap start with
    | none =>
      have hlabel : Line.Says start _ _ none := Line.says_label hname
      rw [String.ofList_toList] at hlabel
      simp only [List.map_cons, List.map_nil, String.toList_append, htext]
      exact hlabel.append hstatement
    | some gap =>
      have hboth : Line.Says start _ _ _ :=
        Line.says_label_statement hname (hp.blank start gap hgap) hformed (h.writable hp)
      rw [String.ofList_toList] at hboth
      simp only [List.map_cons, List.map_nil, String.toList_append, htext, List.append_assoc]
      exact hboth
  · rw [if_neg hmem, if_neg hmem, List.map_singleton, htext]
    exact hstatement

/-- The line after the last instruction says its label, if one is defined there. -/
theorem IsAt.endLines (hp : p.Valid) :
    Line.Says start ((p.linesFrom start []).map String.toList) (p.nameAt? start) none := by
  unfold linesFrom nameAt?
  by_cases hmem : start ∈ p.targets
  · rw [if_pos hmem, if_pos hmem]
    have hlabel : Line.Says start _ _ none := Line.says_label (hp.identifier start hmem)
    rw [String.ofList_toList] at hlabel
    simp only [List.map_cons, List.map_nil, String.toList_append]
    exact hlabel
  · rw [if_neg hmem, if_neg hmem]
    exact ⟨by simp, by simp, rfl, fun _ => ⟨0, rfl⟩, rfl⟩

/-! ## The whole source -/

/-- The labels at the boundaries, with their offsets. -/
def definedFrom (p : LabelledProgram) (start : Nat) (rest : List Encoded) : List (String × Nat) :=
  (Encoded.boundaries start rest).filterMap fun offset =>
    (p.nameAt? offset).map fun name => (name, offset)

theorem IsAt.isLine (hp : p.Valid) (h : p.IsAt start rest) :
    ∀ text ∈ (p.linesFrom start rest).map String.toList, Text.IsLine text ∧ Line.Readable text := by
  induction rest generalizing start with
  | nil =>
    intro text hmem
    exact ⟨(endLines hp).isLine text hmem, (endLines hp).readable text hmem⟩
  | cons e rest ih =>
    intro text hmem
    rw [linesFrom, List.map_append] at hmem
    rcases List.mem_append.1 hmem with hmem | hmem
    · exact ⟨(h.itemLines hp).isLine text hmem, (h.itemLines hp).readable text hmem⟩
    · exact ih h.next text hmem

theorem IsAt.definitions (hp : p.Valid) (h : p.IsAt start rest) :
    Layout.definitions start ((p.linesFrom start rest).map String.toList) =
      p.definedFrom start rest := by
  induction rest generalizing start with
  | nil =>
    rw [(endLines hp).definitions]
    unfold definedFrom Encoded.boundaries
    cases hname : p.nameAt? start with
    | none => simp [hname]
    | some name => simp [hname]
  | cons e rest ih =>
    have hsize : Line.totalSize ((p.itemLines start e).map String.toList) = e.row.size :=
      (h.itemLines hp).size
    rw [linesFrom, List.map_append, Layout.definitions_append, hsize, ih h.next,
      (h.itemLines hp).definitions]
    unfold definedFrom
    rw [Encoded.boundaries]
    cases hname : p.nameAt? start with
    | none => simp [hname]
    | some name => simp [hname]

/-- A label that a branch is written with is one of the boundaries, as far away as the operand
says. -/
theorem target?_eq_some {target : Nat} (h : p.target? start e = some target) :
    target ∈ Encoded.boundaries 0 p.program ∧
      Layout.distance start target = e.operand.toInt8.toInt := by
  unfold target? at h
  split at h
  · rename_i hsymbolic
    have hsize : e.row.size = 2 := (Instruction.branch_of_relative e.mem_table hsymbolic.1).1
    have htarget := List.find?_some h
    rw [decide_eq_true_eq] at htarget
    refine ⟨List.mem_of_find?_eq_some h, ?_⟩
    unfold Encoded.destination at htarget
    unfold Layout.distance
    omega
  · cases h

theorem mem_boundaries_of_mem_targetsFrom {target : Nat} (h : target ∈ p.targetsFrom start rest) :
    target ∈ Encoded.boundaries 0 p.program := by
  induction rest generalizing start with
  | nil => exact absurd h List.not_mem_nil
  | cons e rest ih =>
    rcases List.mem_append.1 h with h | h
    · exact (target?_eq_some (Option.mem_toList.1 h)).1
    · exact ih h

/-- An instruction is encoded to its bytes, once the label it is written with is found. -/
theorem encode_statement {layout : Layout} {line : Nat}
    (hlabels : ∀ target, p.target? start e = some target →
      layout.offset? (p.name target) = some target) :
    layout.encode ⟨line, start, p.statement start e⟩ = .ok e.bytes := by
  unfold Layout.encode statement Encoded.bytes
  dsimp only
  cases hmode : e.row.mode with
  | implied | immediate | zeroPage => rfl
  | relative =>
    dsimp only
    cases htarget : p.target? start e with
    | none => rfl
    | some target =>
      have hdistance := (target?_eq_some htarget).2
      have hlow := e.operand.toInt8.le_toInt
      have hhigh := e.operand.toInt8.toInt_lt
      dsimp only
      rw [hlabels target htarget]
      dsimp only
      rw [hdistance, if_pos ⟨hlow, by omega⟩, Int8.ofInt_toInt, UInt8.toUInt8_toInt8]
      rfl

/-- The statements of the lines are encoded to the bytes of the program. -/
theorem IsAt.encode (hp : p.Valid) (h : p.IsAt start rest) {layout : Layout}
    (hlabels : ∀ target ∈ p.targets, layout.offset? (p.name target) = some target)
    (number : Nat) :
    (Layout.placements number start ((p.linesFrom start rest).map String.toList)).map
        layout.encode =
      (rest.map Encoded.bytes).map .ok := by
  induction rest generalizing start number with
  | nil =>
    rcases (endLines hp).placements number with ⟨line, hplaced⟩
    rw [hplaced]
    rfl
  | cons e rest ih =>
    have hsize : Line.totalSize ((p.itemLines start e).map String.toList) = e.row.size :=
      (h.itemLines hp).size
    rcases (h.itemLines hp).placements number with ⟨line, hplaced⟩
    have hencode : layout.encode ⟨line, start, p.statement start e⟩ = .ok e.bytes :=
      encode_statement fun target htarget => hlabels target (h.target htarget)
    rw [linesFrom, List.map_append, Layout.placements_append, hsize, List.map_append,
      ih h.next, hplaced]
    simp [hencode]

theorem Valid.nodup (hp : p.Valid) : ((p.definedFrom 0 p.program).map Prod.fst).Nodup := by
  -- different boundaries have different names
  unfold definedFrom
  rw [List.map_filterMap]
  refine List.pairwise_filterMap.2 ((Encoded.boundaries_nodup 0 p.program).imp ?_)
  intro offset offset' hne name hname name' hname'
  unfold nameAt? at hname hname'
  split at hname
  · split at hname'
    · rename_i hmem hmem'
      cases hname
      cases hname'
      intro hsame
      exact hne (hp.injective offset hmem offset' hmem' hsame)
    · cases hname'
  · cases hname

theorem Valid.lines (hp : p.Valid) :
    Text.lines p.source.toList = (p.linesFrom 0 p.program).map String.toList := by
  have hjoin : p.source.toList = ['\n'].intercalate ((p.linesFrom 0 p.program).map String.toList) :=
    String.toList_intercalate
  rw [hjoin]
  exact Text.lines_intercalate fun text hmem => ((isAt_zero p).isLine hp text hmem).1

/-- The source assembles to the program. -/
theorem assemble_source (hp : p.Valid) : assemble p.source = .ok p.bytes := by
  have hdefinitions := (isAt_zero p).definitions hp
  have hnodup : (((p.linesFrom 0 p.program).map String.toList).filterMap Line.name?).Nodup := by
    rw [← Layout.map_fst_definitions 0, hdefinitions]
    exact hp.nodup
  -- every label that a branch is written with stands at its boundary
  have hlabels : ∀ target ∈ p.targets,
      (Layout.read ((p.linesFrom 0 p.program).map String.toList)).offset? (p.name target) =
        some target := by
    intro target hmem
    apply Layout.offset?_read hnodup
    rw [hdefinitions]
    refine List.mem_filterMap.2 ⟨target, mem_boundaries_of_mem_targetsFrom hmem, ?_⟩
    unfold nameAt?
    rw [if_pos hmem]
    rfl
  refine assemble_eq_ok_iff.2 ⟨p.program.map Encoded.bytes, ?_, ?_, ?_, ?_⟩
  · rw [hp.lines]
    exact fun text hmem => ((isAt_zero p).isLine hp text hmem).2
  · rw [hp.lines]
    exact hnodup
  · rw [hp.lines]
    exact (isAt_zero p).encode hp hlabels 1
  · exact List.flatMap_def

/-- A loop with a branch back and a branch to the end. -/
def countingLoop : LabelledProgram where
  program :=
    [⟨⟨0xA9, .lda, .immediate, 2⟩, 0x05, by decide⟩,
      ⟨⟨0xE6, .inc, .zeroPage, 5⟩, 0x10, by decide⟩,
      ⟨⟨0x90, .bcc, .relative, 2⟩, 0xFC, by decide⟩,
      ⟨⟨0xB0, .bcs, .relative, 2⟩, 0x01, by decide⟩,
      ⟨⟨0x00, .brk, .implied, 7⟩, 0x00, by decide⟩]
  code := #[0x00, 0xA9, 0x05, 0xE6, 0x10, 0x90, 0xFC, 0xB0, 0x01, 0x00]
  origin := 1
  name := fun target => if target = 2 then "loop" else "end"
  symbolic := fun _ => true
  gap := fun target => if target = 2 then some " " else none

theorem assemble_source_of_countingLoop :
    (countingLoop.Valid ∧
      countingLoop.source = "LDA #$05\nloop: INC $10\nBCC loop\nBCS end\nBRK\nend:") ∧
      assemble countingLoop.source =
        .ok [0xA9, 0x05, 0xE6, 0x10, 0x90, 0xFC, 0xB0, 0x01, 0x00] := by
  have hvalid : countingLoop.Valid := by
    refine ⟨?_, ?_, ?_, ?_⟩
    · unfold Holds
      decide +kernel
    · decide +kernel
    · decide +kernel
    · intro target gap hgap c hc
      have hspace : gap = " " := by
        by_cases htarget : target = 2
        · exact (Option.some.inj ((if_pos htarget).symm.trans hgap)).symm
        · cases (if_neg htarget).symm.trans hgap
      rw [hspace] at hc
      rw [show c = ' ' from List.mem_singleton.1 hc]
      decide
  have hsource : countingLoop.source =
      "LDA #$05\nloop: INC $10\nBCC loop\nBCS end\nBRK\nend:" := by decide +kernel
  exact ⟨⟨hvalid, hsource⟩, assemble_source hvalid⟩

end LabelledProgram

end Cpu6502
