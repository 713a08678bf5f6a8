import Cpu6502.Assembly
import Cpu6502.Proofs.Assembly.Reading

/-! # What a source is laid out to

The labels and the statements of a source can be read off its lines, each with the number of bytes
before it. A source assembles if all its lines can be read, no label is defined twice and every
branch reaches its label; its layout is then the one read off the lines, and the bytes of each
statement stand in the output at the offset of its line.
-/

namespace Cpu6502

/-! ## What the lines say -/

namespace Line

/-- The name that a line defines. -/
def name? (text : List Char) : Option String :=
  (ofText text).label.map String.ofList

/-- The statement of a line. -/
def statement? (text : List Char) : Option Statement :=
  match Statement.ofBody (ofText text).body with
  | .ok statement => statement
  | .error _ => none

/-- The number of bytes of a line. -/
def size (text : List Char) : Nat :=
  ((statement? text).map (·.instruction.size)).getD 0

/-- The line has no defect of its own. -/
structure Readable (text : List Char) : Prop where
  label : ∀ label ∈ (ofText text).label, isIdentifier label
  body : Statement.ofBody (ofText text).body = .ok (statement? text)

/-- The number of bytes of several lines. -/
def totalSize : List (List Char) → Nat
  | [] => 0
  | text :: rest => size text + totalSize rest

/-- The number of bytes before the line at an index. -/
def offset (lines : List (List Char)) (index : Nat) : Nat :=
  totalSize (lines.take index)

variable {text : List Char}

theorem wellFormed {statement : Statement} (h : statement? text = some statement) :
    statement.WellFormed := by
  unfold statement? at h
  split at h
  · rename_i heq
    rw [h] at heq
    exact Statement.wellFormed_of_ofBody heq
  · cases h

/-- What is read off a line whose parts are known. -/
theorem readable_of_parts {label : Option (List Char)} {body : List Char}
    {statement : Option Statement} (hparts : ofText text = ⟨label, body⟩)
    (hlabel : ∀ l ∈ label, isIdentifier l) (hbody : Statement.ofBody body = .ok statement) :
    Readable text ∧ name? text = label.map String.ofList ∧ statement? text = statement := by
  have hstatement : statement? text = statement := by
    unfold statement?
    rw [hparts, hbody]
  refine ⟨⟨?_, ?_⟩, ?_, hstatement⟩
  · rw [hparts]
    exact hlabel
  · rw [hparts, hbody, hstatement]
  · unfold name?
    rw [hparts]

@[simp] theorem totalSize_nil : totalSize [] = 0 := rfl

@[simp] theorem totalSize_cons (text : List Char) (lines : List (List Char)) :
    totalSize (text :: lines) = size text + totalSize lines := rfl

theorem totalSize_append (lines lines' : List (List Char)) :
    totalSize (lines ++ lines') = totalSize lines + totalSize lines' := by
  induction lines with
  | nil => exact (Nat.zero_add _).symm
  | cons text rest ih =>
    rw [List.cons_append, totalSize_cons, totalSize_cons, ih, Nat.add_assoc]

/-- Lines are parted by the one at an index. -/
theorem take_append_cons_drop {lines : List (List Char)} {index : Nat}
    (h : lines[index]? = some text) :
    lines.take index ++ text :: lines.drop (index + 1) = lines ∧
      (lines.take index).length = index := by
  obtain ⟨hindex, htext⟩ := List.getElem?_eq_some_iff.1 h
  refine ⟨?_, List.length_take_of_le (Nat.le_of_lt hindex)⟩
  rw [← htext, ← List.drop_eq_getElem_cons hindex, List.take_append_drop]

@[simp] theorem offset_zero (lines : List (List Char)) : offset lines 0 = 0 := rfl

@[simp] theorem offset_cons_succ (text : List Char) (lines : List (List Char)) (index : Nat) :
    offset (text :: lines) (index + 1) = size text + offset lines index := rfl

end Line

namespace Layout

/-- The labels that lines define, with their offsets; `start` bytes stand before the lines. -/
def definitions (start : Nat) : List (List Char) → List (String × Nat)
  | [] => []
  | text :: rest =>
    ((Line.name? text).map fun name => (name, start)).toList ++
      definitions (start + Line.size text) rest

/-- The statements of lines in their places; the first line has the given number. -/
def placements (number start : Nat) : List (List Char) → List Placed
  | [] => []
  | text :: rest =>
    ((Line.statement? text).map fun statement => ⟨number, start, statement⟩).toList ++
      placements (number + 1) (start + Line.size text) rest

/-- The layout with the labels and the statements of more lines. -/
def extend (layout : Layout) (number : Nat) (lines : List (List Char)) : Layout where
  labels := (definitions layout.size lines).reverse ++ layout.labels
  placed := layout.placed ++ (placements number layout.size lines).toArray
  size := layout.size + Line.totalSize lines

variable {layout layout' : Layout} {number start : Nat} {text : List Char}
  {lines : List (List Char)}

theorem definitions_append (start : Nat) (lines lines' : List (List Char)) :
    definitions start (lines ++ lines') =
      definitions start lines ++ definitions (start + Line.totalSize lines) lines' := by
  induction lines generalizing start with
  | nil => rfl
  | cons text rest ih =>
    rw [List.cons_append, definitions, definitions, ih, List.append_assoc, Line.totalSize_cons,
      Nat.add_assoc]

theorem placements_append (number start : Nat) (lines lines' : List (List Char)) :
    placements number start (lines ++ lines') =
      placements number start lines ++
        placements (number + lines.length) (start + Line.totalSize lines) lines' := by
  induction lines generalizing number start with
  | nil => rfl
  | cons text rest ih =>
    rw [List.cons_append, placements, placements, ih, List.append_assoc, Line.totalSize_cons,
      Nat.add_assoc, List.length_cons, Nat.add_assoc, Nat.add_comm 1]

theorem map_fst_definitions (start : Nat) (lines : List (List Char)) :
    (definitions start lines).map Prod.fst = lines.filterMap Line.name? := by
  induction lines generalizing start with
  | nil => rfl
  | cons text rest ih =>
    rw [definitions, List.map_append, ih]
    cases hname : Line.name? text with
    | none => rw [List.filterMap_cons_none hname]; rfl
    | some name => rw [List.filterMap_cons_some hname]; rfl

/-- The definition of a label is found on one of the lines. -/
theorem mem_definitions {name : String} {target : Nat} :
    (name, target) ∈ definitions start lines ↔
      ∃ index text, lines[index]? = some text ∧ Line.name? text = some name ∧
        target = start + Line.offset lines index := by
  induction lines generalizing start with
  | nil => simp [definitions]
  | cons first rest ih =>
    rw [definitions, List.mem_append, ih]
    constructor
    · rintro (hmem | ⟨index, text, hline, hname, rfl⟩)
      · rw [Option.mem_toList, Option.map_eq_some_iff] at hmem
        rcases hmem with ⟨name', hname, heq⟩
        cases heq
        exact ⟨0, first, rfl, hname, rfl⟩
      · refine ⟨index + 1, text, hline, hname, ?_⟩
        rw [Line.offset_cons_succ, Nat.add_assoc]
    · rintro ⟨index, text, hline, hname, rfl⟩
      cases index with
      | zero =>
        cases hline
        left
        rw [Option.mem_toList, hname]
        rfl
      | succ index =>
        right
        refine ⟨index, text, hline, hname, ?_⟩
        rw [Line.offset_cons_succ, Nat.add_assoc]

/-! ## Laying out -/

theorem extend_nil (layout : Layout) (number : Nat) : layout.extend number [] = layout := by
  simp [extend, definitions, placements]

theorem extend_cons (layout : Layout) (number : Nat) (text : List Char)
    (lines : List (List Char)) :
    layout.extend number (text :: lines) =
      (layout.extend number [text]).extend (number + 1) lines := by
  cases hstatement : Line.statement? text with
  | none => simp [extend, definitions, placements, hstatement, Nat.add_assoc]
  | some statement => simp [extend, definitions, placements, hstatement, Nat.add_assoc]

theorem offset?_extend_eq_none {name : String} :
    (layout.extend number lines).offset? name = none ↔
      layout.offset? name = none ∧ name ∉ lines.filterMap Line.name? := by
  have hnames := map_fst_definitions layout.size lines
  unfold offset? extend
  rw [List.lookup_append, Option.or_eq_none_iff, List.lookup_eq_none_iff, ← hnames, and_comm]
  refine and_congr Iff.rfl ?_
  constructor
  · intro hall hmem
    rcases List.mem_map.1 hmem with ⟨definition, hdefinition, rfl⟩
    have hne := hall definition (List.mem_reverse.2 hdefinition)
    simp at hne
  · intro hnot definition hmem
    rw [bne_iff_ne]
    rintro rfl
    exact hnot (List.mem_map_of_mem (List.mem_reverse.1 hmem))

theorem define_eq_ok_iff {label : Option (List Char)} :
    layout.define label = .ok layout' ↔
      (∀ l ∈ label, isIdentifier l) ∧
        (∀ name ∈ label.map String.ofList, layout.offset? name = none) ∧
        layout' = { layout with
          labels := ((label.map String.ofList).map fun name => (name, layout.size)).toList ++
            layout.labels } := by
  cases label with
  | none =>
    constructor
    · intro h
      cases h
      exact ⟨by simp, by simp, rfl⟩
    · rintro ⟨-, -, rfl⟩
      rfl
  | some l =>
    simp only [define, Option.map_some, Option.mem_def, Option.some.injEq, forall_eq',
      Option.toList_some]
    by_cases hidentifier : isIdentifier l
    · cases hoffset : layout.offset? (String.ofList l) with
      | none => simp [hidentifier, eq_comm]
      | some target => simp [hidentifier]
    · simp [hidentifier]

theorem extend_singleton :
    layout.extend number [text] =
      let defined : Layout := { layout with
        labels := ((Line.name? text).map fun name => (name, layout.size)).toList ++
          layout.labels }
      match Line.statement? text with
      | none => defined
      | some statement => defined.place number statement := by
  have hlabels : (definitions layout.size [text]).reverse =
      ((Line.name? text).map fun name => (name, layout.size)).toList := by
    cases hname : Line.name? text with
    | none => simp [definitions, hname]
    | some name => simp [definitions, hname]
  unfold extend
  rw [hlabels]
  cases hstatement : Line.statement? text with
  | none => simp [placements, Line.size, hstatement]
  | some statement => simp [placements, place, Line.size, hstatement]

/-- A line is laid out if it can be read and its label is new. -/
theorem addLine_eq_ok_iff :
    layout.addLine number text = .ok layout' ↔
      Line.Readable text ∧ (∀ name ∈ Line.name? text, layout.offset? name = none) ∧
        layout' = layout.extend number [text] := by
  rw [extend_singleton]
  unfold addLine
  dsimp only
  constructor
  · intro h
    cases hdefine : layout.define (Line.ofText text).label with
    | error defect =>
      rw [hdefine] at h
      cases h
    | ok defined =>
      rw [hdefine] at h
      rcases define_eq_ok_iff.1 hdefine with ⟨hlabel, hfresh, rfl⟩
      cases hbody : Statement.ofBody (Line.ofText text).body with
      | error defect =>
        rw [hbody] at h
        cases h
      | ok statement =>
        rw [hbody] at h
        have hstatement : Line.statement? text = statement := by
          unfold Line.statement?
          rw [hbody]
        refine ⟨⟨hlabel, by rw [hbody, hstatement]⟩, hfresh, ?_⟩
        rw [hstatement]
        cases statement with
        | none => cases h; rfl
        | some statement => cases h; rfl
  · rintro ⟨hreadable, hfresh, rfl⟩
    have hdefine := define_eq_ok_iff.2 ⟨hreadable.label, hfresh, rfl⟩
    rw [hdefine, hreadable.body]
    cases Line.statement? text with
    | none => rfl
    | some statement => rfl

/-- The labels of the lines differ from one another and from those of the layout. -/
def New (layout : Layout) (lines : List (List Char)) : Prop :=
  (lines.filterMap Line.name?).Nodup ∧
    ∀ name ∈ lines.filterMap Line.name?, layout.offset? name = none

theorem new_nil (layout : Layout) : layout.New [] :=
  ⟨List.nodup_nil, fun _ h => absurd h List.not_mem_nil⟩

/-- Lines can be added one by one: the labels of the rest are new after the first line if they are
new before it and differ from its label. -/
theorem new_cons_iff (number : Nat) :
    layout.New (text :: lines) ↔
      (∀ name ∈ Line.name? text, layout.offset? name = none) ∧
        (layout.extend number [text]).New lines := by
  unfold New
  cases hname : Line.name? text with
  | none =>
    have hsame : ∀ name, (layout.extend number [text]).offset? name = none ↔
        layout.offset? name = none := by
      intro name
      rw [offset?_extend_eq_none, List.filterMap_cons_none hname]
      simp
    simp [List.filterMap_cons_none hname, hsame]
  | some own =>
    -- after the first line its own label is no longer new
    have hother : ∀ name, (layout.extend number [text]).offset? name = none ↔
        layout.offset? name = none ∧ name ≠ own := by
      intro name
      rw [offset?_extend_eq_none, List.filterMap_cons_some hname]
      simp
    simp only [List.filterMap_cons_some hname, hother, List.nodup_cons, List.forall_mem_cons,
      Option.mem_def, Option.some.injEq, forall_eq']
    constructor
    · rintro ⟨⟨hown, hnodup⟩, hfirst, hrest⟩
      refine ⟨hfirst, hnodup, ?_⟩
      intro name hmem
      refine ⟨hrest name hmem, ?_⟩
      rintro rfl
      exact hown hmem
    · rintro ⟨hfirst, hnodup, hrest⟩
      refine ⟨⟨?_, hnodup⟩, hfirst, fun name hmem => (hrest name hmem).1⟩
      intro hmem
      exact (hrest own hmem).2 rfl

/-- Lines are laid out if they can be read and their labels are new. -/
theorem addLines_eq_ok_iff :
    layout.addLines number lines = .ok layout' ↔
      (∀ text ∈ lines, Line.Readable text) ∧ layout.New lines ∧
        layout' = layout.extend number lines := by
  induction lines generalizing layout number with
  | nil =>
    rw [addLines, extend_nil]
    simp [new_nil, eq_comm]
  | cons text rest ih =>
    rw [addLines, extend_cons, new_cons_iff number]
    constructor
    · intro h
      cases hadd : layout.addLine number text with
      | error defect =>
        rw [hadd] at h
        cases h
      | ok next =>
        rw [hadd] at h
        rcases addLine_eq_ok_iff.1 hadd with ⟨hreadable, hfirst, rfl⟩
        rcases ih.1 h with ⟨hrest, hnew, rfl⟩
        exact ⟨List.forall_mem_cons.2 ⟨hreadable, hrest⟩, ⟨hfirst, hnew⟩, rfl⟩
    · rintro ⟨hreadable, ⟨hfirst, hnew⟩, rfl⟩
      rcases List.forall_mem_cons.1 hreadable with ⟨hreadable, hrest⟩
      rw [addLine_eq_ok_iff.2 ⟨hreadable, hfirst, rfl⟩]
      exact ih.2 ⟨hrest, hnew, rfl⟩

/-- Lines that have been laid out leave the rest to be laid out after them. -/
theorem addLines_append {after : List (List Char)}
    (h : layout.addLines number lines = .ok layout') :
    layout.addLines number (lines ++ after) = layout'.addLines (number + lines.length) after := by
  induction lines generalizing layout number with
  | nil =>
    cases h
    rfl
  | cons text rest ih =>
    rw [addLines] at h
    rw [List.cons_append, addLines]
    cases hadd : layout.addLine number text with
    | error defect =>
      rw [hadd] at h
      cases h
    | ok next =>
      rw [hadd] at h
      rw [List.length_cons, Nat.add_comm rest.length, ← Nat.add_assoc]
      exact ih h

/-- The layout of lines that have no defect. -/
def read (lines : List (List Char)) : Layout :=
  extend {} 1 lines

theorem ofLines_eq_ok_iff :
    ofLines lines = .ok layout ↔
      (∀ text ∈ lines, Line.Readable text) ∧ (lines.filterMap Line.name?).Nodup ∧
        layout = read lines := by
  unfold ofLines
  rw [addLines_eq_ok_iff]
  constructor
  · rintro ⟨hreadable, hnew, rfl⟩
    exact ⟨hreadable, hnew.1, rfl⟩
  · rintro ⟨hreadable, hnodup, rfl⟩
    exact ⟨hreadable, ⟨hnodup, fun _ _ => rfl⟩, rfl⟩

/-- The first line with a defect is the one that is reported. -/
theorem ofLines_eq_error (after : List (List Char)) {defect : Defect}
    (hreadable : ∀ text ∈ lines, Line.Readable text)
    (hnodup : (lines.filterMap Line.name?).Nodup)
    (h : (read lines).addLine (lines.length + 1) text = .error defect) :
    ofLines (lines ++ text :: after) = .error ⟨lines.length + 1, defect⟩ := by
  have hbefore := ofLines_eq_ok_iff.2 ⟨hreadable, hnodup, rfl⟩
  unfold ofLines at hbefore ⊢
  rw [addLines_append hbefore, addLines, Nat.add_comm 1, h]

theorem labels_read (lines : List (List Char)) :
    (read lines).labels = (definitions 0 lines).reverse := by
  simp [read, extend]

/-- A label that has an offset is defined there. -/
theorem mem_definitions_of_offset? {name : String} {target : Nat}
    (h : (read lines).offset? name = some target) : (name, target) ∈ definitions 0 lines := by
  unfold offset? at h
  rw [labels_read, List.lookup_eq_some_iff] at h
  rcases h with ⟨later, earlier, hsplit, -⟩
  rw [← List.mem_reverse, hsplit]
  exact List.mem_append_right _ List.mem_cons_self

/-- A label that is defined once has the offset of its definition. -/
theorem offset?_read (hnodup : (lines.filterMap Line.name?).Nodup) {name : String} {target : Nat}
    (h : (name, target) ∈ definitions 0 lines) : (read lines).offset? name = some target := by
  rw [← map_fst_definitions 0] at hnodup
  unfold offset?
  rw [labels_read, List.lookup_eq_some_iff]
  -- the labels are searched from the latest on, and none of the later ones has the name
  rcases List.append_of_mem h with ⟨before, after, hsplit⟩
  refine ⟨after.reverse, before.reverse, ?_, ?_⟩
  · rw [hsplit]
    simp
  · intro definition hmem
    rw [hsplit, List.map_append, List.map_cons] at hnodup
    have hnot := (List.nodup_cons.1 (List.nodup_append.1 hnodup).2.1).1
    have hname := List.mem_map_of_mem (f := Prod.fst) (List.mem_reverse.1 hmem)
    rw [bne_iff_ne]
    rintro rfl
    exact hnot hname

/-! ## Encoding -/

theorem mapM_eq_ok_iff {α β ε : Type} {f : α → Except ε β} {xs : List α} {ys : List β} :
    xs.mapM f = .ok ys ↔ xs.map f = ys.map .ok := by
  induction xs generalizing ys with
  | nil =>
    rw [List.mapM_nil, List.map_nil]
    constructor
    · intro h
      cases h
      rfl
    · intro h
      rw [List.map_eq_nil_iff.1 h.symm]
      rfl
  | cons x xs ih =>
    rw [List.mapM_cons, List.map_cons]
    constructor
    · intro h
      cases hx : f x with
      | error e =>
        rw [hx] at h
        cases h
      | ok y =>
        cases hxs : xs.mapM f with
        | error e =>
          rw [hx, hxs] at h
          cases h
        | ok rest =>
          rw [hx, hxs] at h
          cases h
          rw [ih.1 hxs, List.map_cons]
    · intro h
      cases ys with
      | nil => cases h
      | cons y ys =>
        rcases List.cons.inj h with ⟨hx, hxs⟩
        rw [hx, ih.2 hxs]
        rfl

/-- A statement is encoded with as many bytes as its instruction has. -/
theorem length_of_encode {placed : Placed} {chunk : List UInt8}
    (h : layout.encode placed = .ok chunk) (hformed : placed.statement.WellFormed) :
    chunk.length = placed.statement.instruction.size := by
  rw [hformed.size]
  unfold encode at h
  dsimp only at h
  cases hargument : placed.statement.argument with
  | none | immediate value | byte value =>
    rw [hargument] at h
    cases h
    rfl
  | label name =>
    rw [hargument] at h
    dsimp only at h
    split at h
    · cases h
    · split at h
      · cases h
        rfl
      · cases h

/-- The bytes of lines are as many as the lines say. -/
theorem length_flatten_of_encode {chunks : List (List UInt8)}
    (h : (placements number start lines).map layout.encode = chunks.map .ok) :
    chunks.flatten.length = Line.totalSize lines := by
  induction lines generalizing number start chunks with
  | nil =>
    rw [List.map_eq_nil_iff.1 h.symm]
    rfl
  | cons text rest ih =>
    rw [placements, List.map_append] at h
    rw [Line.totalSize_cons]
    unfold Line.size
    cases hstatement : Line.statement? text with
    | none =>
      -- a line without a statement takes no bytes and has no chunk
      rw [hstatement] at h
      rw [ih h]
      exact (Nat.zero_add _).symm
    | some statement =>
      rw [hstatement] at h
      cases chunks with
      | nil => cases h
      | cons chunk chunks =>
        rcases List.cons.inj h with ⟨hchunk, hrest⟩
        rw [List.flatten_cons, List.length_append, ih hrest,
          length_of_encode hchunk (Line.wellFormed hstatement)]
        rfl

/-- The bytes of a statement stand in the output where the lines before it end. -/
theorem chunk_at {chunks : List (List UInt8)}
    (h : (placements number start lines).map layout.encode = chunks.map .ok) {index : Nat}
    {statement : Statement} (hline : lines[index]? = some text)
    (hstatement : Line.statement? text = some statement) :
    ∃ before chunk after, chunks.flatten = before ++ chunk ++ after ∧
      before.length = Line.offset lines index ∧
      layout.encode ⟨number + index, start + Line.offset lines index, statement⟩ = .ok chunk := by
  obtain ⟨hlines, hlength⟩ := Line.take_append_cons_drop hline
  -- the chunks are parted as the lines are: those before the line, its own, and those after it
  have hsplit : placements number start lines =
      placements number start (lines.take index) ++
        ⟨number + index, start + Line.offset lines index, statement⟩ ::
          placements (number + index + 1) (start + Line.offset lines index + Line.size text)
            (lines.drop (index + 1)) := by
    have hplaced := placements_append number start (lines.take index)
      (text :: lines.drop (index + 1))
    rw [hlines, hlength, placements, hstatement] at hplaced
    exact hplaced
  rw [hsplit, List.map_append, List.map_cons] at h
  rcases List.map_eq_append_iff.1 h.symm with ⟨before, rest, rfl, hbefore, hrest⟩
  cases rest with
  | nil => cases hrest
  | cons chunk after =>
    rcases List.cons.inj hrest with ⟨hchunk, -⟩
    refine ⟨before.flatten, chunk, after.flatten, ?_, ?_, hchunk.symm⟩
    · rw [List.flatten_append, List.flatten_cons, List.append_assoc]
    · exact length_flatten_of_encode hbefore.symm

end Layout

/-- A source assembles if its lines can be laid out and every statement can be encoded. -/
theorem assemble_eq_ok_iff {source : String} {bytes : List UInt8} :
    assemble source = .ok bytes ↔
      ∃ chunks : List (List UInt8),
        (∀ text ∈ Text.lines source.toList, Line.Readable text) ∧
          ((Text.lines source.toList).filterMap Line.name?).Nodup ∧
          (Layout.placements 1 0 (Text.lines source.toList)).map
            (Layout.read (Text.lines source.toList)).encode = chunks.map .ok ∧
          bytes = chunks.flatten := by
  -- the layout has the statements of the lines as they were placed
  have hchunks : ∀ chunks, (Layout.read (Text.lines source.toList)).chunks = .ok chunks ↔
      (Layout.placements 1 0 (Text.lines source.toList)).map
        (Layout.read (Text.lines source.toList)).encode = chunks.map .ok := by
    intro chunks
    unfold Layout.chunks
    rw [Layout.mapM_eq_ok_iff]
    simp [Layout.read, Layout.extend]
  unfold assemble
  constructor
  · intro h
    cases hlayout : Layout.ofLines (Text.lines source.toList) with
    | error e =>
      rw [hlayout] at h
      cases h
    | ok layout =>
      rcases Layout.ofLines_eq_ok_iff.1 hlayout with ⟨hreadable, hnodup, rfl⟩
      rw [hlayout] at h
      cases hresult : (Layout.read (Text.lines source.toList)).chunks with
      | error e =>
        simp only [bind, Except.bind, hresult] at h
        cases h
      | ok chunks =>
        simp only [bind, Except.bind, hresult] at h
        cases h
        exact ⟨chunks, hreadable, hnodup, (hchunks chunks).1 hresult, rfl⟩
  · rintro ⟨chunks, hreadable, hnodup, hencode, rfl⟩
    have hlayout := Layout.ofLines_eq_ok_iff.2 ⟨hreadable, hnodup, rfl⟩
    simp only [hlayout, bind, Except.bind, (hchunks chunks).2 hencode]
    rfl

/-- A defect in the layout of a source is the error that is reported. -/
theorem assemble_eq_error_of_ofLines {source : String} {e : AssemblyError}
    (h : Layout.ofLines (Text.lines source.toList) = .error e) : assemble source = .error e := by
  unfold assemble
  rw [h]
  rfl

end Cpu6502
