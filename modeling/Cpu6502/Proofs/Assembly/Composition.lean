import Cpu6502.Proofs.Assembly.Layout

/-! # Sources that are put together

Two sources that assemble can be written one below the other. Branches are relative, so the code of
the second source stays as it is when all its labels move by the size of the code before it; and
wherever the first source ends, the second one starts on a line of its own. The result is the code
of the one and the code of the other (`assemble_append`), unless a label is defined in both: then
the second definition is the error.
-/

namespace Cpu6502

/-- The labels that a source defines, in order. -/
def sourceLabels (source : String) : List String :=
  (Text.lines source.toList).filterMap Line.name?

/-- The line at an index, where the first line has index zero, is the first one to define a label
that is taken. -/
structure FirstClash (taken : List String) (lines : List (List Char)) (index : Nat)
    (name : String) : Prop where
  defined : lines[index]?.bind Line.name? = some name
  is_taken : name ∈ taken
  first : ∀ earlier < index, ∀ other, lines[earlier]?.bind Line.name? = some other →
    other ∉ taken

/-! ## Where the first source ends -/

namespace Line

/-- A carriage return at the end of a line is no part of its label or its statement. -/
theorem ofText_dropReturn (text : List Char) : ofText (Text.dropReturn text) = ofText text := by
  unfold Text.dropReturn
  split
  · rename_i hlast
    rcases List.getLast?_eq_some_iff.1 hlast with ⟨line, rfl⟩
    have hblank : ∀ c ∈ ['\r'], Text.isBlank c := by
      intro c hc
      rw [List.mem_singleton.1 hc]
      decide
    -- the carriage return is trimmed unless it belongs to a comment
    have hcode : Text.trim ((line ++ ['\r']).takeWhile (· ≠ ';')) =
        Text.trim (line.takeWhile (· ≠ ';')) := by
      rw [List.takeWhile_append]
      split
      · rename_i hall
        rw [(List.takeWhile_prefix _).eq_of_length hall]
        exact Text.trim_append_of_blank_right line hblank
      · rfl
    unfold ofText
    rw [hcode, List.dropLast_concat]
  · rfl

/-- A line feed after a source adds at most a blank line to it. -/
theorem map_ofText_lines_concat (source : List Char) :
    ∃ blank, (blank = [] ∨ blank = [[]]) ∧
      (Text.lines (source ++ ['\n'])).map ofText = (Text.lines source ++ blank).map ofText := by
  obtain ⟨before, last, hlines, hconcat⟩ := Text.exists_lines_concat source
  rw [hlines, hconcat]
  by_cases hlast : last = []
  · subst hlast
    exact ⟨[[]], Or.inr rfl, by simp [Text.dropReturn]⟩
  · exact ⟨[], Or.inl rfl, by simp [hlast, ofText_dropReturn]⟩

end Line

namespace Layout

variable {layout layout' : Layout} {number start : Nat} {lines lines' : List (List Char)}

/-- How lines are laid out depends on what they are read as. -/
theorem addLines_congr (h : lines.map Line.ofText = lines'.map Line.ofText) :
    layout.addLines number lines = layout.addLines number lines' := by
  induction lines generalizing layout number lines' with
  | nil => rw [List.map_eq_nil_iff.1 h.symm]
  | cons text rest ih =>
    cases lines' with
    | nil => cases h
    | cons text' rest' =>
      obtain ⟨htext, hrest⟩ := List.cons.inj h
      have hadd : layout.addLine number text = layout.addLine number text' := by
        unfold addLine
        rw [htext]
      rw [addLines, addLines, hadd]
      cases layout.addLine number text' with
      | error defect => rfl
      | ok next => exact ih hrest

/-- A blank line at the end adds nothing. -/
theorem addLines_blank : layout.addLines number (lines ++ [[]]) = layout.addLines number lines := by
  induction lines generalizing layout number with
  | nil => rfl
  | cons text rest ih =>
    rw [List.cons_append, addLines, addLines]
    cases layout.addLine number text with
    | error defect => rfl
    | ok next => exact ih

theorem ofLines_lines_concat (source : List Char) :
    ofLines (Text.lines (source ++ ['\n'])) = ofLines (Text.lines source) := by
  obtain ⟨blank, hblank, hread⟩ := Line.map_ofText_lines_concat source
  unfold ofLines
  rw [addLines_congr hread]
  rcases hblank with rfl | rfl
  · rw [List.append_nil]
  · exact addLines_blank

end Layout

theorem toList_append_newline (source : String) :
    (source ++ "\n").toList = source.toList ++ ['\n'] :=
  String.toList_append

theorem assemble_append_newline (source : String) :
    assemble (source ++ "\n") = assemble source := by
  unfold assemble
  rw [toList_append_newline, Layout.ofLines_lines_concat]

theorem sourceLabels_append_newline (source : String) :
    sourceLabels (source ++ "\n") = sourceLabels source := by
  have hname : Line.name? = (fun line => line.label.map String.ofList) ∘ Line.ofText := rfl
  obtain ⟨blank, hblank, hread⟩ := Line.map_ofText_lines_concat source.toList
  unfold sourceLabels
  rw [toList_append_newline, hname, ← List.filterMap_map, ← List.filterMap_map, hread]
  rcases hblank with rfl | rfl
  · rw [List.append_nil]
  · rw [List.map_append, List.filterMap_append]
    exact List.append_nil _

/-! ## Moving the second source -/

/-- A statement with more lines and more bytes before it. -/
def Placed.shift (lines bytes : Nat) (placed : Placed) : Placed :=
  { placed with line := placed.line + lines, offset := placed.offset + bytes }

namespace Layout

/-- Each label of a layout is found in another one, further on by some bytes. -/
def Moves (layout : Layout) (bytes : Nat) (layout' : Layout) : Prop :=
  ∀ name target, layout.offset? name = some target → layout'.offset? name = some (target + bytes)

variable {layout layout' : Layout} {number start bytes : Nat} {lines lines' : List (List Char)}

theorem placements_shift (more bytes number start : Nat) (lines : List (List Char)) :
    placements (number + more) (start + bytes) lines =
      (placements number start lines).map (Placed.shift more bytes) := by
  induction lines generalizing number start with
  | nil => rfl
  | cons text rest ih =>
    rw [placements, placements, List.map_append, ← ih, Nat.add_right_comm number,
      Nat.add_right_comm start]
    cases Line.statement? text with
    | none => rfl
    | some statement => rfl

/-- A statement that moves with the labels keeps its bytes: the distance of a branch is the same. -/
theorem encode_shift {placed : Placed} {chunk : List UInt8} (hmoves : layout.Moves bytes layout')
    (more : Nat) (h : layout.encode placed = .ok chunk) :
    layout'.encode (placed.shift more bytes) = .ok chunk := by
  obtain ⟨line, offset, instruction, argument⟩ := placed
  unfold encode at h ⊢
  unfold Placed.shift
  dsimp only at h ⊢
  cases argument with
  | none | immediate value | byte value => exact h
  | label name =>
    dsimp only at h ⊢
    cases htarget : layout.offset? name with
    | none =>
      rw [htarget] at h
      cases h
    | some target =>
      have hdistance : distance (offset + bytes) (target + bytes) = distance offset target := by
        unfold distance
        omega
      rw [htarget] at h
      rw [hmoves name target htarget]
      dsimp only at h ⊢
      rw [hdistance]
      split at h
      · rename_i hnear
        rw [if_pos hnear]
        exact h
      · cases h

theorem map_encode_shift {chunks : List (List UInt8)} (hmoves : layout.Moves bytes layout')
    (more : Nat) (h : (placements number start lines).map layout.encode = chunks.map .ok) :
    (placements (number + more) (start + bytes) lines).map layout'.encode = chunks.map .ok := by
  rw [placements_shift, List.map_map, ← h]
  apply List.map_congr_left
  intro placed hplaced
  have hok : layout.encode placed ∈ chunks.map Except.ok := by
    rw [← h]
    exact List.mem_map_of_mem hplaced
  obtain ⟨chunk, -, hchunk⟩ := List.mem_map.1 hok
  rw [← hchunk]
  exact encode_shift hmoves more hchunk.symm

/-- The labels of the first lines stay where they are. -/
theorem moves_append_left (hnodup : ((lines ++ lines').filterMap Line.name?).Nodup) :
    (read lines).Moves 0 (read (lines ++ lines')) := by
  intro name target h
  apply offset?_read hnodup
  rw [definitions_append]
  exact List.mem_append_left _ (mem_definitions_of_offset? h)

/-- The labels of the other lines move by the bytes of the first ones. -/
theorem moves_append_right (hnodup : ((lines ++ lines').filterMap Line.name?).Nodup) :
    (read lines').Moves (Line.totalSize lines) (read (lines ++ lines')) := by
  intro name target h
  obtain ⟨index, text, hline, hname, rfl⟩ := mem_definitions.1 (mem_definitions_of_offset? h)
  apply offset?_read hnodup
  rw [definitions_append]
  apply List.mem_append_right
  refine mem_definitions.2 ⟨index, text, hline, hname, ?_⟩
  rw [Nat.zero_add, Nat.zero_add, Nat.add_comm]

/-- Lines that are put together make the bytes that they make apart. -/
theorem map_encode_append {chunks chunks' : List (List UInt8)}
    (hnodup : ((lines ++ lines').filterMap Line.name?).Nodup)
    (h : (placements 1 0 lines).map (read lines).encode = chunks.map .ok)
    (h' : (placements 1 0 lines').map (read lines').encode = chunks'.map .ok) :
    (placements 1 0 (lines ++ lines')).map (read (lines ++ lines')).encode =
      (chunks ++ chunks').map .ok := by
  have hleft : (placements 1 0 lines).map (read (lines ++ lines')).encode = chunks.map .ok :=
    map_encode_shift (moves_append_left hnodup) 0 h
  have hright := map_encode_shift (moves_append_right hnodup) lines.length h'
  rw [placements_append, List.map_append, List.map_append, hleft, hright]

end Layout

/-! ## Labels that are defined twice -/

section
variable {taken : List String} {lines lines' : List (List Char)} {index : Nat} {name : String}

theorem exists_firstClash (h : ∃ name ∈ taken, name ∈ lines.filterMap Line.name?) :
    ∃ index name, FirstClash taken lines index name := by
  induction lines with
  | nil =>
    obtain ⟨name, -, hname⟩ := h
    exact absurd hname List.not_mem_nil
  | cons text rest ih =>
    by_cases hfirst : ∃ own ∈ taken, Line.name? text = some own
    · obtain ⟨own, htaken, hown⟩ := hfirst
      exact ⟨0, own, hown, htaken, nofun⟩
    · -- the label of this line, if it has one, is free
      have hfree : ∀ own, Line.name? text = some own → own ∉ taken :=
        fun own hown htaken => hfirst ⟨own, htaken, hown⟩
      obtain ⟨name, htaken, hname⟩ := h
      obtain ⟨text', htext', hname'⟩ := List.mem_filterMap.1 hname
      rcases List.mem_cons.1 htext' with rfl | hrest
      · exact absurd htaken (hfree name hname')
      · obtain ⟨index, name, hdefined, htaken, hearlier⟩ :=
          ih ⟨name, htaken, List.mem_filterMap.2 ⟨text', hrest, hname'⟩⟩
        refine ⟨index + 1, name, hdefined, htaken, ?_⟩
        intro earlier hlt other hother
        cases earlier with
        | zero => exact hfree other hother
        | succ earlier => exact hearlier earlier (Nat.lt_of_succ_lt_succ hlt) other hother

theorem addLine_eq_error_of_defined {layout : Layout} {number : Nat} {text : List Char}
    (hreadable : Line.Readable text) (hname : Line.name? text = some name)
    (hdefined : layout.offset? name ≠ none) :
    layout.addLine number text = .error (.duplicateLabel name) := by
  obtain ⟨label, hlabel, rfl⟩ := Option.map_eq_some_iff.1 hname
  obtain ⟨target, htarget⟩ := Option.ne_none_iff_exists'.1 hdefined
  have hidentifier := hreadable.label label hlabel
  have hdefine : layout.define (Line.ofText text).label =
      .error (.duplicateLabel (String.ofList label)) := by
    rw [hlabel]
    simp [Layout.define, hidentifier, htarget]
  unfold Layout.addLine
  dsimp only
  rw [hdefine]
  rfl

/-- Up to the first clash no label is defined twice. -/
theorem FirstClash.nodup_take (hclash : FirstClash (lines.filterMap Line.name?) lines' index name)
    (hnodup : (lines.filterMap Line.name?).Nodup) (hnodup' : (lines'.filterMap Line.name?).Nodup) :
    ((lines ++ lines'.take index).filterMap Line.name?).Nodup := by
  rw [List.filterMap_append]
  refine List.nodup_append.2
    ⟨hnodup, hnodup'.sublist ((List.take_sublist index lines').filterMap _), ?_⟩
  rintro other hother _ hother' rfl
  obtain ⟨text, htext, hname⟩ := List.mem_filterMap.1 hother'
  obtain ⟨earlier, hearlier⟩ := List.mem_iff_getElem?.1 htext
  rw [List.getElem?_take] at hearlier
  split at hearlier
  · rename_i hlt
    have hdefined := Option.bind_eq_some_iff.2 ⟨text, hearlier, hname⟩
    exact hclash.first earlier hlt other hdefined hother
  · cases hearlier

/-- The first line to define a label of the lines before is the one that is reported. -/
theorem FirstClash.ofLines_append
    (hclash : FirstClash (lines.filterMap Line.name?) lines' index name)
    (hreadable : ∀ text ∈ lines ++ lines', Line.Readable text)
    (hnodup : (lines.filterMap Line.name?).Nodup) (hnodup' : (lines'.filterMap Line.name?).Nodup) :
    Layout.ofLines (lines ++ lines') =
      .error ⟨lines.length + (index + 1), .duplicateLabel name⟩ := by
  obtain ⟨text, hline, hname⟩ := Option.bind_eq_some_iff.1 hclash.defined
  obtain ⟨hsplit, hlength⟩ := Line.take_append_cons_drop hline
  have hdefined : (Layout.read (lines ++ lines'.take index)).offset? name ≠ none := by
    unfold Layout.read
    rw [Ne, Layout.offset?_extend_eq_none, List.filterMap_append]
    rintro ⟨-, hnot⟩
    exact hnot (List.mem_append_left _ hclash.is_taken)
  rw [← hsplit, ← List.append_assoc] at hreadable ⊢
  obtain ⟨hreadable, htext⟩ := List.forall_mem_append.1 hreadable
  have herror := Layout.ofLines_eq_error (lines'.drop (index + 1)) hreadable
    (hclash.nodup_take hnodup hnodup')
    (addLine_eq_error_of_defined (htext text List.mem_cons_self) hname hdefined)
  rw [List.length_append, hlength, Nat.add_assoc] at herror
  exact herror

end

/-- Two sources that assemble, one below the other, make the code of the one and the code of the
other if they define different labels. If a label is defined in both, the first line of the second
source to define such a label is the error. -/
theorem assemble_append {source source' : String} {bytes bytes' : List UInt8}
    (h : assemble source = .ok bytes) (h' : assemble source' = .ok bytes') :
    ((∀ name ∈ sourceLabels source, name ∉ sourceLabels source') →
        assemble (source ++ "\n" ++ source') = .ok (bytes ++ bytes')) ∧
      ((∃ name ∈ sourceLabels source, name ∈ sourceLabels source') →
        ∃ index name, FirstClash (sourceLabels source) (Text.lines source'.toList) index name ∧
          assemble (source ++ "\n" ++ source') =
            .error ⟨(Text.lines (source ++ "\n").toList).length + (index + 1),
              .duplicateLabel name⟩) := by
  have hlines : Text.lines (source ++ "\n" ++ source').toList =
      Text.lines (source ++ "\n").toList ++ Text.lines source'.toList := by
    simpa using Text.lines_concat_append source.toList source'.toList
  rw [← assemble_append_newline] at h
  rw [← sourceLabels_append_newline source]
  obtain ⟨chunks, hreadable, hnodup, hencode, rfl⟩ := assemble_eq_ok_iff.1 h
  obtain ⟨chunks', hreadable', hnodup', hencode', rfl⟩ := assemble_eq_ok_iff.1 h'
  have hall := List.forall_mem_append.2 ⟨hreadable, hreadable'⟩
  constructor
  · intro hdisjoint
    have hboth : ((Text.lines (source ++ "\n").toList ++
        Text.lines source'.toList).filterMap Line.name?).Nodup := by
      rw [List.filterMap_append]
      refine List.nodup_append.2 ⟨hnodup, hnodup', ?_⟩
      rintro name hname _ hname' rfl
      exact hdisjoint name hname hname'
    refine assemble_eq_ok_iff.2 ⟨chunks ++ chunks', ?_, ?_, ?_, List.flatten_append.symm⟩
    · rw [hlines]
      exact hall
    · rw [hlines]
      exact hboth
    · rw [hlines]
      exact Layout.map_encode_append hboth hencode hencode'
  · intro hshared
    obtain ⟨index, name, hclash⟩ := exists_firstClash hshared
    refine ⟨index, name, hclash, assemble_eq_error_of_ofLines ?_⟩
    rw [hlines]
    exact hclash.ofLines_append hall hnodup hnodup'

/-- The first source ends in a carriage return. The second one has a branch back to a label that
moves, and the third one a label of the first. -/
theorem assemble_append_of_labels :
    let first := "up: LDA #$05\r"
    let second := "NOP\ntop: BCC top"
    let third := "CLC\nup: SEC"
    (assemble first = .ok [0xA9, 0x05] ∧ assemble second = .ok [0xEA, 0x90, 0xFE] ∧
        assemble third = .ok [0x18, 0x38]) ∧
      assemble (first ++ "\n" ++ second) = .ok ([0xA9, 0x05] ++ [0xEA, 0x90, 0xFE]) ∧
      ∃ index name, FirstClash (sourceLabels first) (Text.lines third.toList) index name ∧
        assemble (first ++ "\n" ++ third) =
          .error ⟨(Text.lines (first ++ "\n").toList).length + (index + 1),
            .duplicateLabel name⟩ := by
  have hfirst : assemble "up: LDA #$05\r" = .ok [0xA9, 0x05] := by rfl
  have hsecond : assemble "NOP\ntop: BCC top" = .ok [0xEA, 0x90, 0xFE] := by rfl
  have hthird : assemble "CLC\nup: SEC" = .ok [0x18, 0x38] := by rfl
  have hlabels : sourceLabels "up: LDA #$05\r" = ["up"] := by rfl
  have hother : sourceLabels "NOP\ntop: BCC top" = ["top"] := by rfl
  have hshared : sourceLabels "CLC\nup: SEC" = ["up"] := by rfl
  refine ⟨⟨hfirst, hsecond, hthird⟩, (assemble_append hfirst hsecond).1 ?_,
    (assemble_append hfirst hthird).2 ?_⟩
  · rw [hlabels, hother]
    decide
  · rw [hlabels, hshared]
    decide

/-- Lines are counted from the start of the first source. -/
example : assemble ("top: BRK" ++ "\n" ++ "NOP\ntop: NOP") = .error ⟨3, .duplicateLabel "top"⟩ := by
  rfl

end Cpu6502
