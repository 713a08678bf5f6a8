import Cpu6502.Proofs.Assembly.Composition
import Cpu6502.Proofs.Assembly.Defects

/-! # Which defect is reported

A source can have many defects, but only one is reported. Each line is looked at on its own first;
of all lines with a defect the first one is reported, with the first of its defects. Only if there
is no such line are branches looked at, and the first one that does not reach its label is reported.

* `Verdict`: what is to be reported for the lines of a source, said without the assembler;
* `verdict_of_assemble`: the assembler reports a verdict;
* `Verdict.unique`: there is only one.
-/

namespace Cpu6502

/-! ## The defects of a source -/

/-- The labels that the lines before an index define. -/
def labelsBefore (lines : List (List Char)) (index : Nat) : List String :=
  (lines.take index).filterMap Line.name?

/-- The line at an index has a defect of its own. -/
def Defective (lines : List (List Char)) (index : Nat) : Prop :=
  ∃ text rank defect, lines[index]? = some text ∧
    Line.Has (labelsBefore lines index) text rank defect

/-- The line at an index is the first one with a defect of its own, and the first of its defects is
the given one. -/
structure FirstDefective (lines : List (List Char)) (index : Nat) (defect : Defect) : Prop where
  reported : ∃ text, lines[index]? = some text ∧
    Line.Reported (labelsBefore lines index) text defect
  first : ∀ earlier < index, ¬Defective lines earlier

/-- The operand of the line at an index is a label that is not defined or too far away. -/
inductive BadBranch (lines : List (List Char)) (index : Nat) : Defect → Prop where
  | undefined {text mnemonic label : List Char} (line : lines[index]? = some text)
      (words_eq : Line.words text = [mnemonic, label]) (identifier : isIdentifier label)
      (nowhere : ∀ other ∈ lines, Line.name? other ≠ some (String.ofList label)) :
      BadBranch lines index (.undefinedLabel (String.ofList label))
  | outOfRange {text mnemonic label : List Char} {definition : Nat} {distance : Int}
      (line : lines[index]? = some text) (words_eq : Line.words text = [mnemonic, label])
      (identifier : isIdentifier label)
      (defined : lines[definition]?.bind Line.name? = some (String.ofList label))
      (distance_eq : distance = Line.offset lines definition - (Line.offset lines index + 2))
      (far : ¬(-128 ≤ distance ∧ distance ≤ 127)) :
      BadBranch lines index (.branchOutOfRange (String.ofList label) distance)

/-- What is to be reported for lines: the first defect of the first line that has one; if no line
has one, the first branch that does not reach its label; and nothing if there is none either. -/
inductive Verdict (lines : List (List Char)) : Option AssemblyError → Prop where
  | line {index : Nat} {defect : Defect} (first : FirstDefective lines index defect) :
      Verdict lines (some ⟨index + 1, defect⟩)
  | branch {index : Nat} {defect : Defect} (sound : ∀ other, ¬Defective lines other)
      (bad : BadBranch lines index defect)
      (first : ∀ earlier < index, ∀ other, ¬BadBranch lines earlier other) :
      Verdict lines (some ⟨index + 1, defect⟩)
  | accepted (sound : ∀ other, ¬Defective lines other)
      (reached : ∀ index defect, ¬BadBranch lines index defect) : Verdict lines none

variable {lines : List (List Char)} {index : Nat} {defect defect' : Defect}

/-! ### The first line with a defect -/

theorem labelsBefore_take {n : Nat} (h : index < n) :
    labelsBefore (lines.take n) index = labelsBefore lines index := by
  unfold labelsBefore
  rw [List.take_take, Nat.min_eq_left (Nat.le_of_lt h)]

theorem Defective.take {n : Nat} (h : Defective lines index) (hindex : index < n) :
    Defective (lines.take n) index := by
  obtain ⟨text, rank, defect, hline, hhas⟩ := h
  refine ⟨text, rank, defect, ?_, ?_⟩
  · rw [List.getElem?_take, if_pos hindex]
    exact hline
  · rw [labelsBefore_take hindex]
    exact hhas

/-- Lines that can be read and that define no label twice have no defect. -/
theorem not_defective (hreadable : ∀ text ∈ lines, Line.Readable text)
    (hnodup : (lines.filterMap Line.name?).Nodup) : ¬Defective lines index := by
  rintro ⟨text, rank, defect, hline, hhas⟩
  refine Line.Readable.not_has (hreadable text (List.mem_of_getElem? hline)) ?_ hhas
  intro name hname hmem
  obtain ⟨hsplit, -⟩ := Line.take_append_cons_drop hline
  rw [← hsplit, List.filterMap_append, List.filterMap_cons_some hname] at hnodup
  exact (List.nodup_append.1 hnodup).2.2 name hmem name List.mem_cons_self rfl

namespace Layout

/-- Lines that cannot be laid out are laid out up to the line that is reported. -/
theorem exists_of_addLines_eq_error {layout : Layout} {number : Nat} {e : AssemblyError}
    (h : layout.addLines number lines = .error e) :
    ∃ index text next, lines[index]? = some text ∧ e.line = number + index ∧
      layout.addLines number (lines.take index) = .ok next ∧
      next.addLine (number + index) text = .error e.defect := by
  induction lines generalizing layout number with
  | nil => cases h
  | cons text rest ih =>
    rw [addLines] at h
    cases hadd : layout.addLine number text with
    | error defect =>
      rw [hadd] at h
      cases h
      exact ⟨0, text, layout, rfl, rfl, rfl, hadd⟩
    | ok next =>
      rw [hadd] at h
      obtain ⟨index, text', last, hline, hnumber, hbefore, herror⟩ := ih h
      refine ⟨index + 1, text', last, hline, ?_, ?_, ?_⟩
      · rw [hnumber, Nat.add_right_comm, Nat.add_assoc]
      · rw [List.take_succ_cons, addLines, hadd]
        exact hbefore
      · rw [← Nat.add_assoc, Nat.add_right_comm]
        exact herror

/-- A line that is reported is the one that is reported if lines follow. -/
theorem addLines_append_eq_error {layout : Layout} {number : Nat} {e : AssemblyError}
    (h : layout.addLines number lines = .error e) (after : List (List Char)) :
    layout.addLines number (lines ++ after) = .error e := by
  induction lines generalizing layout number with
  | nil => cases h
  | cons text rest ih =>
    rw [addLines] at h
    rw [List.cons_append, addLines]
    cases hadd : layout.addLine number text with
    | error defect =>
      rw [hadd] at h
      exact h
    | ok next =>
      rw [hadd] at h
      exact ih h

/-- Lines that cannot be laid out have a first line with a defect. -/
theorem firstDefective_of_ofLines {e : AssemblyError} (h : ofLines lines = .error e) :
    ∃ index, e.line = index + 1 ∧ FirstDefective lines index e.defect := by
  obtain ⟨index, text, next, hline, hnumber, hbefore, herror⟩ := exists_of_addLines_eq_error h
  obtain ⟨hreadable, hnodup, rfl⟩ := ofLines_eq_ok_iff.1 hbefore
  have htaken : ∀ name, (read (lines.take index)).offset? name = none ↔
      name ∉ labelsBefore lines index := by
    intro name
    unfold read labelsBefore
    rw [offset?_extend_eq_none]
    exact and_iff_right rfl
  refine ⟨index, ?_, ⟨text, hline, Line.reported_of_addLine htaken herror⟩, ?_⟩
  · rw [hnumber, Nat.add_comm]
  · intro earlier hearlier hdefective
    exact not_defective hreadable hnodup (hdefective.take hearlier)

end Layout

theorem FirstDefective.defective (h : FirstDefective lines index defect) :
    Defective lines index := by
  obtain ⟨text, hline, rank, hhas, -⟩ := h.reported
  exact ⟨text, rank, defect, hline, hhas⟩

/-- Lines without a defect are laid out. -/
theorem readable_of_sound (h : ∀ index, ¬Defective lines index) :
    (∀ text ∈ lines, Line.Readable text) ∧ (lines.filterMap Line.name?).Nodup := by
  cases hlayout : Layout.ofLines lines with
  | error e =>
    obtain ⟨index, -, hfirst⟩ := Layout.firstDefective_of_ofLines hlayout
    exact absurd hfirst.defective (h index)
  | ok layout =>
    obtain ⟨hreadable, hnodup, -⟩ := Layout.ofLines_eq_ok_iff.1 hlayout
    exact ⟨hreadable, hnodup⟩

/-! ### The first branch that does not reach its label -/

namespace Line

variable {text mnemonic label : List Char}

theorem statement?_of_words (h : Readable text) (hwords : words text = [mnemonic, label])
    (hidentifier : isIdentifier label) :
    ∃ statement, statement? text = some statement ∧
      statement.argument = .label (String.ofList label) := by
  obtain ⟨statement, hstatement, hwritten, -⟩ := h.exists_parts hwords
  exact ⟨statement, hstatement, hwritten.unique (.label hidentifier)⟩

theorem words_of_statement? (h : Readable text) {statement : Statement} {name : String}
    (hstatement : statement? text = some statement) (hargument : statement.argument = .label name) :
    ∃ mnemonic label, words text = [mnemonic, label] ∧ isIdentifier label ∧
      name = String.ofList label := by
  have hbody := h.body
  rw [hstatement] at hbody
  obtain ⟨mnemonic, operand, argument, hwords, hwritten, hparts⟩ :=
    Statement.exists_parts_of_ofBody hbody
  obtain ⟨rfl, -, -⟩ := Statement.of_ofParts hparts
  rw [hargument] at hwritten
  cases hwritten with
  | label identifier => exact ⟨mnemonic, _, hwords, identifier, rfl⟩

end Line

namespace Layout

/-- A statement cannot be encoded if its operand is a label that has no offset or one that is too
far away. -/
theorem encode_eq_error_iff {layout : Layout} {placed : Placed} {e : AssemblyError} :
    layout.encode placed = .error e ↔
      ∃ name, placed.statement.argument = .label name ∧ e.line = placed.line ∧
        ((layout.offset? name = none ∧ e.defect = .undefinedLabel name) ∨
          ∃ target, layout.offset? name = some target ∧
            ¬(-128 ≤ distance placed.offset target ∧ distance placed.offset target ≤ 127) ∧
            e.defect = .branchOutOfRange name (distance placed.offset target)) := by
  obtain ⟨line, defect⟩ := e
  unfold encode
  dsimp only
  cases hargument : placed.statement.argument with
  | none | immediate value | byte value => simp
  | label name =>
    cases hoffset : layout.offset? name with
    | none => simp [hoffset, eq_comm]
    | some target =>
      by_cases hnear : -128 ≤ distance placed.offset target ∧ distance placed.offset target ≤ 127
      · simp only [hoffset, if_pos hnear, reduceCtorEq, false_iff]
        rintro ⟨name', hname, -, ⟨hnone, -⟩ | ⟨target', htarget, hfar, -⟩⟩
        · cases hname
          rw [hoffset] at hnone
          cases hnone
        · cases hname
          rw [hoffset] at htarget
          cases htarget
          exact hfar hnear
      · simp only [hoffset, if_neg hnear, Except.error.injEq, AssemblyError.mk.injEq]
        constructor
        · rintro ⟨rfl, rfl⟩
          exact ⟨name, rfl, rfl, Or.inr ⟨target, hoffset, hnear, rfl⟩⟩
        · rintro ⟨name', hname, hline, ⟨hnone, -⟩ | ⟨target', htarget, -, rfl⟩⟩
          · cases hname
            rw [hoffset] at hnone
            cases hnone
          · cases hname
            rw [hoffset] at htarget
            cases htarget
            exact ⟨hline.symm, rfl⟩

end Layout

/-- The statement of the line at an index in its place; the first line has the given number, and
`start` bytes stand before it. -/
def Layout.placedAt? (number start : Nat) (lines : List (List Char)) (index : Nat) :
    Option Placed :=
  (lines[index]?.bind Line.statement?).map fun statement =>
    ⟨number + index, start + Line.offset lines index, statement⟩

theorem Layout.placedAt?_of_statement? {number start : Nat} {text : List Char}
    {statement : Statement} (hline : lines[index]? = some text)
    (hstatement : Line.statement? text = some statement) :
    placedAt? number start lines index =
      some ⟨number + index, start + Line.offset lines index, statement⟩ := by
  unfold placedAt?
  rw [hline, Option.bind_some, hstatement]
  rfl

/-- A branch that does not reach its label cannot be encoded. -/
theorem BadBranch.exists_placed (hreadable : ∀ text ∈ lines, Line.Readable text)
    (hnodup : (lines.filterMap Line.name?).Nodup) (h : BadBranch lines index defect) :
    ∃ placed, Layout.placedAt? 1 0 lines index = some placed ∧
      (Layout.read lines).encode placed = .error ⟨index + 1, defect⟩ := by
  cases h with
  | undefined line words_eq identifier nowhere =>
    obtain ⟨statement, hstatement, hargument⟩ :=
      Line.statement?_of_words (hreadable _ (List.mem_of_getElem? line)) words_eq identifier
    refine ⟨_, Layout.placedAt?_of_statement? line hstatement,
      Layout.encode_eq_error_iff.2 ⟨_, hargument, Nat.add_comm index 1, ?_⟩⟩
    refine Or.inl ⟨Layout.offset?_extend_eq_none.2 ⟨rfl, ?_⟩, rfl⟩
    intro hmem
    obtain ⟨other, hother, hname⟩ := List.mem_filterMap.1 hmem
    exact nowhere other hother hname
  | outOfRange line words_eq identifier defined distance_eq far =>
    obtain ⟨statement, hstatement, hargument⟩ :=
      Line.statement?_of_words (hreadable _ (List.mem_of_getElem? line)) words_eq identifier
    refine ⟨_, Layout.placedAt?_of_statement? line hstatement,
      Layout.encode_eq_error_iff.2 ⟨_, hargument, Nat.add_comm index 1, ?_⟩⟩
    obtain ⟨other, hother, hname⟩ := Option.bind_eq_some_iff.1 defined
    subst distance_eq
    rw [Nat.zero_add]
    refine Or.inr ⟨_, Layout.offset?_read hnodup ?_, far, rfl⟩
    exact Layout.mem_definitions.2 ⟨_, other, hother, hname, (Nat.zero_add _).symm⟩

/-- A statement that cannot be encoded is a branch that does not reach its label. -/
theorem badBranch_of_encode (hreadable : ∀ text ∈ lines, Line.Readable text) {placed : Placed}
    {e : AssemblyError} (hplaced : Layout.placedAt? 1 0 lines index = some placed)
    (hencode : (Layout.read lines).encode placed = .error e) :
    e.line = index + 1 ∧ BadBranch lines index e.defect := by
  obtain ⟨statement, hstatement, rfl⟩ := Option.map_eq_some_iff.1 hplaced
  obtain ⟨text, hline, hstatement⟩ := Option.bind_eq_some_iff.1 hstatement
  obtain ⟨name, hargument, hnumber, hcases⟩ := Layout.encode_eq_error_iff.1 hencode
  obtain ⟨mnemonic, label, hwords, hidentifier, rfl⟩ :=
    Line.words_of_statement? (hreadable text (List.mem_of_getElem? hline)) hstatement hargument
  refine ⟨hnumber.trans (Nat.add_comm 1 index), ?_⟩
  rcases hcases with ⟨hoffset, hdefect⟩ | ⟨target, hoffset, hfar, hdefect⟩
  · rw [hdefect]
    refine .undefined hline hwords hidentifier ?_
    intro other hother hname
    exact (Layout.offset?_extend_eq_none.1 hoffset).2 (List.mem_filterMap.2 ⟨other, hother, hname⟩)
  · obtain ⟨definition, other, hother, hname, rfl⟩ :=
      Layout.mem_definitions.1 (Layout.mem_definitions_of_offset? hoffset)
    rw [hdefect]
    refine .outOfRange hline hwords hidentifier
      (Option.bind_eq_some_iff.2 ⟨other, hother, hname⟩) ?_ hfar
    unfold Layout.distance
    rw [Nat.zero_add, Nat.zero_add]

theorem BadBranch.unique (hreadable : ∀ text ∈ lines, Line.Readable text)
    (hnodup : (lines.filterMap Line.name?).Nodup) (h : BadBranch lines index defect)
    (h' : BadBranch lines index defect') : defect = defect' := by
  obtain ⟨placed, hplaced, hencode⟩ := h.exists_placed hreadable hnodup
  obtain ⟨placed', hplaced', hencode'⟩ := h'.exists_placed hreadable hnodup
  rw [hplaced] at hplaced'
  cases hplaced'
  rw [hencode] at hencode'
  cases hencode'
  rfl

namespace Layout

variable {number start : Nat}

theorem placedAt?_cons_zero (text : List Char) (lines : List (List Char)) :
    placedAt? number start (text :: lines) 0 =
      (Line.statement? text).map fun statement => ⟨number, start, statement⟩ := rfl

theorem placedAt?_cons_succ (text : List Char) (lines : List (List Char)) (index : Nat) :
    placedAt? number start (text :: lines) (index + 1) =
      placedAt? (number + 1) (start + Line.size text) lines index := by
  unfold placedAt?
  rw [List.getElem?_cons_succ, Line.offset_cons_succ, Nat.add_assoc number, Nat.add_comm 1,
    Nat.add_assoc start]

/-- Where encoding fails, it fails at the first statement that cannot be encoded. -/
theorem exists_of_mapM_placements {f : Placed → Except AssemblyError (List UInt8)}
    {e : AssemblyError} (h : (placements number start lines).mapM f = .error e) :
    ∃ index placed, placedAt? number start lines index = some placed ∧ f placed = .error e ∧
      ∀ earlier < index, ∀ other, placedAt? number start lines earlier = some other →
        ∃ chunk, f other = .ok chunk := by
  induction lines generalizing number start with
  | nil => cases h
  | cons text rest ih =>
    -- an error further on, if the first line has no statement or one that can be encoded
    have hlater : (placements (number + 1) (start + Line.size text) rest).mapM f = .error e →
        (∀ placed, placedAt? number start (text :: rest) 0 = some placed →
          ∃ chunk, f placed = .ok chunk) →
        ∃ index placed, placedAt? number start (text :: rest) index = some placed ∧
          f placed = .error e ∧ ∀ earlier < index, ∀ other,
            placedAt? number start (text :: rest) earlier = some other →
              ∃ chunk, f other = .ok chunk := by
      intro hrest hfirst
      obtain ⟨index, placed, hplaced, herror, hearlier⟩ := ih hrest
      refine ⟨index + 1, placed, ?_, herror, ?_⟩
      · rw [placedAt?_cons_succ]
        exact hplaced
      · intro earlier hlt other hother
        cases earlier with
        | zero => exact hfirst other hother
        | succ earlier =>
          rw [placedAt?_cons_succ] at hother
          exact hearlier earlier (Nat.lt_of_succ_lt_succ hlt) other hother
    rw [placements, ← placedAt?_cons_zero text rest] at h
    cases hplaced : placedAt? number start (text :: rest) 0 with
    | none =>
      rw [hplaced] at h hlater
      refine hlater h ?_
      intro placed hsome
      cases hsome
    | some placed =>
      rw [hplaced, Option.toList_some, List.singleton_append, List.mapM_cons] at h
      cases hchunk : f placed with
      | error other =>
        rw [hchunk] at h
        cases h
        refine ⟨0, placed, hplaced, hchunk, ?_⟩
        intro earlier hlt
        exact absurd hlt (Nat.not_lt_zero earlier)
      | ok chunk =>
        refine hlater ?_ ?_
        · cases hrest : (placements (number + 1) (start + Line.size text) rest).mapM f with
          | error other =>
            simp only [bind, Except.bind, hchunk, hrest] at h
            exact h
          | ok chunks =>
            simp only [bind, Except.bind, hchunk, hrest] at h
            cases h
        · intro other hother
          rw [hplaced] at hother
          cases hother
          exact ⟨chunk, hchunk⟩

end Layout

/-! ## The verdict -/

/-- The assembler reports a verdict. -/
theorem verdict_of_assemble (source : String) :
    (∀ e, assemble source = .error e → Verdict (Text.lines source.toList) (some e)) ∧
      (∀ bytes, assemble source = .ok bytes → Verdict (Text.lines source.toList) none) := by
  constructor
  · intro e h
    unfold assemble at h
    cases hlayout : Layout.ofLines (Text.lines source.toList) with
    | error other =>
      rw [hlayout] at h
      cases h
      obtain ⟨index, hline, hfirst⟩ := Layout.firstDefective_of_ofLines hlayout
      obtain ⟨line, defect⟩ := e
      cases hline
      exact .line hfirst
    | ok layout =>
      obtain ⟨hreadable, hnodup, rfl⟩ := Layout.ofLines_eq_ok_iff.1 hlayout
      have hchunks : (Layout.placements 1 0 (Text.lines source.toList)).mapM
          (Layout.read (Text.lines source.toList)).encode = .error e := by
        cases hresult : (Layout.read (Text.lines source.toList)).chunks with
        | error other =>
          simp only [hlayout, bind, Except.bind, hresult] at h
          cases h
          simpa [Layout.chunks, Layout.read, Layout.extend] using hresult
        | ok chunks =>
          simp only [hlayout, bind, Except.bind, hresult] at h
          cases h
      obtain ⟨index, placed, hplaced, herror, hearlier⟩ :=
        Layout.exists_of_mapM_placements hchunks
      obtain ⟨hline, hbad⟩ := badBranch_of_encode hreadable hplaced herror
      obtain ⟨line, defect⟩ := e
      cases hline
      refine .branch (fun other => not_defective hreadable hnodup) hbad ?_
      intro earlier hlt other hbad'
      obtain ⟨placed', hplaced', herror'⟩ := hbad'.exists_placed hreadable hnodup
      obtain ⟨chunk, hchunk⟩ := hearlier earlier hlt placed' hplaced'
      rw [hchunk] at herror'
      cases herror'
  · intro bytes h
    obtain ⟨chunks, hreadable, hnodup, hencode, -⟩ := assemble_eq_ok_iff.1 h
    refine .accepted (fun other => not_defective hreadable hnodup) ?_
    intro index defect hbad
    obtain ⟨placed, hplaced, herror⟩ := hbad.exists_placed hreadable hnodup
    obtain ⟨statement, hstatement, rfl⟩ := Option.map_eq_some_iff.1 hplaced
    obtain ⟨text, hline, hstatement⟩ := Option.bind_eq_some_iff.1 hstatement
    obtain ⟨_, chunk, _, _, _, hchunk⟩ := Layout.chunk_at hencode hline hstatement
    rw [hchunk] at herror
    cases herror

/-- There is only one verdict. -/
theorem Verdict.unique {verdict verdict' : Option AssemblyError} (h : Verdict lines verdict)
    (h' : Verdict lines verdict') : verdict = verdict' := by
  cases h with
  | @line index defect hfirst =>
    cases h' with
    | @line index' defect' hfirst' =>
      have hindex : index = index' :=
        first_unique hfirst.defective hfirst.first hfirst'.defective hfirst'.first
      subst hindex
      obtain ⟨text, hline, hreported⟩ := hfirst.reported
      obtain ⟨text', hline', hreported'⟩ := hfirst'.reported
      rw [hline] at hline'
      cases hline'
      rw [hreported.unique hreported']
    | branch sound => exact absurd hfirst.defective (sound index)
    | accepted sound => exact absurd hfirst.defective (sound index)
  | @branch index defect sound bad first =>
    obtain ⟨hreadable, hnodup⟩ := readable_of_sound sound
    cases h' with
    | line hfirst => exact absurd hfirst.defective (sound _)
    | @branch index' defect' _ bad' first' =>
      have hindex : index = index' :=
        first_unique (p := fun i => ∃ d, BadBranch lines i d) ⟨defect, bad⟩
          (fun earlier hlt => not_exists.2 (first earlier hlt)) ⟨defect', bad'⟩
          (fun earlier hlt => not_exists.2 (first' earlier hlt))
      subst hindex
      rw [bad.unique hreadable hnodup bad']
    | accepted _ reached => exact absurd bad (reached index defect)
  | accepted sound reached =>
    cases h' with
    | line hfirst => exact absurd hfirst.defective (sound _)
    | branch _ bad => exact absurd bad (reached _ _)
    | accepted => rfl

/-- The assembler reports the verdict on the lines of a source and nothing else, and it accepts the
sources on which there is nothing to report. A defect of a line is reported whatever follows. -/
theorem assemble_verdict (source : String) :
    (∀ e, assemble source = .error e ↔ Verdict (Text.lines source.toList) (some e)) ∧
      ((∃ bytes, assemble source = .ok bytes) ↔ Verdict (Text.lines source.toList) none) ∧
      ((∃ index, Defective (Text.lines source.toList) index) →
        ∃ e, assemble source = .error e ∧
          ∀ source' : String, assemble (source ++ "\n" ++ source') = .error e) := by
  obtain ⟨hrejected, haccepted⟩ := verdict_of_assemble source
  refine ⟨?_, ?_, ?_⟩
  · intro e
    constructor
    · exact hrejected e
    · intro hverdict
      cases hresult : assemble source with
      | ok bytes => cases hverdict.unique (haccepted bytes hresult)
      | error other =>
        cases hverdict.unique (hrejected other hresult)
        rfl
  · constructor
    · rintro ⟨bytes, hbytes⟩
      exact haccepted bytes hbytes
    · intro hverdict
      cases hresult : assemble source with
      | ok bytes => exact ⟨bytes, rfl⟩
      | error e => cases hverdict.unique (hrejected e hresult)
  · rintro ⟨index, hdefective⟩
    cases hlayout : Layout.ofLines (Text.lines source.toList) with
    | ok layout =>
      obtain ⟨hreadable, hnodup, -⟩ := Layout.ofLines_eq_ok_iff.1 hlayout
      exact absurd hdefective (not_defective hreadable hnodup)
    | error e =>
      refine ⟨e, assemble_eq_error_of_ofLines hlayout, ?_⟩
      intro source'
      have hlines : Text.lines (source ++ "\n" ++ source').toList =
          Text.lines (source.toList ++ ['\n']) ++ Text.lines source'.toList := by
        simpa using Text.lines_concat_append source.toList source'.toList
      rw [← Layout.ofLines_lines_concat] at hlayout
      apply assemble_eq_error_of_ofLines
      rw [hlines]
      exact Layout.addLines_append_eq_error hlayout (Text.lines source'.toList)

/-- A branch to a label that is not defined, an operand that cannot be read and a label that is
defined twice: the operand is reported. -/
def threeDefects : String :=
  "BCC nowhere\ntop: LDA #$100\ntop: NOP"

theorem assemble_verdict_of_threeDefects :
    Verdict (Text.lines threeDefects.toList) (some ⟨2, .badOperand "LDA #$100"⟩) ∧
      Defective (Text.lines threeDefects.toList) 1 ∧
      ∃ e, assemble threeDefects = .error e ∧
        ∀ source' : String, assemble (threeDefects ++ "\n" ++ source') = .error e := by
  obtain ⟨hrejected, -, hfollowed⟩ := assemble_verdict threeDefects
  have hassemble : assemble threeDefects = .error ⟨2, .badOperand "LDA #$100"⟩ := by rfl
  have hwords : Line.words "top: LDA #$100".toList = ["LDA".toList, "#$100".toList] := by rfl
  have hmalformed : ∀ argument : Argument, ¬argument.Written ["#$100".toList] := by
    intro argument hwritten
    cases Argument.written_iff.1 hwritten
  have hdefective : Defective (Text.lines threeDefects.toList) 1 :=
    ⟨"top: LDA #$100".toList, 2, _, rfl, .badOperand hwords hmalformed⟩
  exact ⟨(hrejected _).1 hassemble, hdefective, hfollowed ⟨1, hdefective⟩⟩

/-- Without the other two defects the branch is reported. -/
example : assemble "BCC nowhere\ntop: LDA #$10" = .error ⟨1, .undefinedLabel "nowhere"⟩ := by
  rfl

end Cpu6502
