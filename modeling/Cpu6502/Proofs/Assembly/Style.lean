import Cpu6502.Proofs.Assembly.LetterCase
import Cpu6502.Proofs.Assembly.Verdict

/-! # Style

How a source is written does not matter to what it assembles to. A row without code, inserted
anywhere, only moves the errors below it down by one line (`assemble_of_inserted`): lines that are
numbered otherwise have the same layout, and the layout is encoded into the same bytes. Together
with comments, blank space, carriage returns and the case of letters that makes `assemble_style`.
-/

namespace Cpu6502

/-! ## Rows without code -/

/-- A row with no code: blank space and perhaps a comment. -/
def Line.Idle (text : List Char) : Prop :=
  ∀ c ∈ text.takeWhile (· ≠ ';'), Text.isBlank c

instance (text : List Char) : Decidable (Line.Idle text) :=
  List.decidableBAll _ (text.takeWhile (· ≠ ';'))

/-- The number that a line has after a line was inserted below the first `count` ones. -/
def numberAfter (count number : Nat) : Nat :=
  if number ≤ count then number else number + 1

/-- The same error on another line. -/
def AssemblyError.renumber (f : Nat → Nat) (e : AssemblyError) : AssemblyError :=
  { e with line := f e.line }

/-- The same statement on another line. -/
def Placed.renumber (f : Nat → Nat) (placed : Placed) : Placed :=
  { placed with line := f placed.line }

theorem Line.Idle.ofText {text : List Char} (h : Line.Idle text) :
    Line.ofText text = ⟨none, []⟩ := by
  have hcode : Text.trim (text.takeWhile (· ≠ ';')) = [] := by
    have htrim := Text.trim_append_of_blank h []
    rw [List.append_nil] at htrim
    exact htrim
  unfold Line.ofText
  rw [hcode]
  rfl

/-- Where each result of a list differs only in its error, so does the result of the list. -/
theorem mapM_mapError {α β ε ε' : Type} {f : α → Except ε β} {f' : α → Except ε' β} {g : ε → ε'}
    {h : α → α} (hf : ∀ a, f' (h a) = (f a).mapError g) (xs : List α) :
    (xs.map h).mapM f' = (xs.mapM f).mapError g := by
  induction xs with
  | nil => rfl
  | cons x xs ih =>
    rw [List.map_cons, List.mapM_cons, List.mapM_cons, hf, ih]
    cases f x with
    | error e => rfl
    | ok y =>
      cases xs.mapM f with
      | error e => rfl
      | ok ys => rfl

namespace Layout

/-- The same layout of lines that have other numbers. -/
def renumber (f : Nat → Nat) (layout : Layout) : Layout :=
  { layout with placed := layout.placed.map (Placed.renumber f) }

variable {f : Nat → Nat} {layout : Layout} {number number' : Nat} {lines : List (List Char)}

theorem define_renumber (label : Option (List Char)) :
    (layout.renumber f).define label = (layout.define label).map (renumber f) := by
  have hoffset : (layout.renumber f).offset? = layout.offset? := rfl
  cases label with
  | none => rfl
  | some label =>
    unfold define
    dsimp only
    rw [hoffset]
    split
    · rfl
    · split
      · rfl
      · rfl

theorem place_renumber (statement : Statement) :
    (layout.renumber f).place (f number) statement =
      (layout.place number statement).renumber f := by
  unfold place renumber
  rw [Array.map_push]
  rfl

theorem addLine_renumber (text : List Char) :
    (layout.renumber f).addLine (f number) text =
      (layout.addLine number text).map (renumber f) := by
  unfold addLine
  dsimp only
  rw [define_renumber]
  cases layout.define (Line.ofText text).label with
  | error defect => rfl
  | ok defined =>
    cases Statement.ofBody (Line.ofText text).body with
    | error defect => rfl
    | ok statement =>
      cases statement with
      | none => rfl
      | some statement => exact congrArg Except.ok (place_renumber statement)

/-- Lines that have other numbers are laid out the same but for the numbers. -/
theorem addLines_renumber (h : ∀ index < lines.length, f (number + index) = number' + index) :
    (layout.renumber f).addLines number' lines =
      ((layout.addLines number lines).map (renumber f)).mapError (AssemblyError.renumber f) := by
  induction lines generalizing layout number number' with
  | nil => rfl
  | cons text rest ih =>
    have hfirst : f number = number' := h 0 (Nat.zero_lt_succ _)
    have hrest : ∀ index < rest.length, f (number + 1 + index) = number' + 1 + index := by
      intro index hindex
      have hlater := h (index + 1) (Nat.succ_lt_succ hindex)
      rw [Nat.add_assoc, Nat.add_assoc, Nat.add_comm 1]
      exact hlater
    rw [addLines, addLines, ← hfirst, addLine_renumber]
    cases layout.addLine number text with
    | error defect => rfl
    | ok next =>
      rw [hfirst]
      exact ih hrest

theorem addLine_idle {text : List Char} (h : Line.Idle text) :
    layout.addLine number text = .ok layout := by
  unfold addLine
  rw [h.ofText]
  rfl

/-- Where a line without code is inserted, the numbers of the lines after it rise by one. -/
theorem ofLines_insert (before after : List (List Char)) {text : List Char} (h : Line.Idle text) :
    ofLines (before ++ text :: after) =
      ((ofLines (before ++ after)).map (renumber (numberAfter before.length))).mapError
        (AssemblyError.renumber (numberAfter before.length)) := by
  have hempty : renumber (numberAfter before.length) {} = {} := by
    unfold renumber
    rw [Array.map_empty]
  -- the numbers of the lines before it stay
  have hbefore : addLines {} 1 before =
      ((addLines {} 1 before).map (renumber (numberAfter before.length))).mapError
        (AssemblyError.renumber (numberAfter before.length)) := by
    conv_lhs => rw [← hempty]
    apply addLines_renumber
    intro index hindex
    exact if_pos (by omega)
  unfold ofLines
  cases hresult : addLines {} 1 before with
  | error e =>
    rw [hresult] at hbefore
    rw [addLines_append_eq_error hresult, addLines_append_eq_error hresult]
    exact hbefore
  | ok layout =>
    rw [hresult] at hbefore
    have hlayout : layout = layout.renumber (numberAfter before.length) := Except.ok.inj hbefore
    rw [addLines_append hresult, addLines_append hresult, addLines, addLine_idle h]
    dsimp only
    -- what was laid out before keeps its numbers, and those of the lines after it rise
    conv_lhs => rw [hlayout]
    apply addLines_renumber
    intro index _
    have hlater : numberAfter before.length (1 + before.length + index) =
        1 + before.length + index + 1 := if_neg (by omega)
    rw [hlater]
    omega

/-- The number of a line shows only in an error. -/
theorem encode_renumber (placed : Placed) :
    (layout.renumber f).encode (placed.renumber f) =
      (layout.encode placed).mapError (AssemblyError.renumber f) := by
  have hoffset : (layout.renumber f).offset? = layout.offset? := rfl
  unfold encode
  rw [hoffset]
  unfold Placed.renumber
  dsimp only
  cases placed.statement.argument with
  | none | immediate value | byte value => rfl
  | label name =>
    dsimp only
    cases layout.offset? name with
    | none => rfl
    | some target =>
      dsimp only
      split
      · rfl
      · rfl

theorem chunks_renumber :
    (layout.renumber f).chunks = layout.chunks.mapError (AssemblyError.renumber f) := by
  have hplaced : (layout.renumber f).placed.toList =
      layout.placed.toList.map (Placed.renumber f) := Array.toList_map
  unfold chunks
  rw [hplaced]
  exact mapM_mapError encode_renumber _

end Layout

/-- A row without code moves the errors below it down by one line. -/
theorem assemble_of_inserted {source source' : String} {before after : List (List Char)}
    {text : List Char} (hrows : Text.rows source.toList = before ++ after)
    (hrows' : Text.rows source'.toList = before ++ text :: after) (h : Line.Idle text) :
    assemble source' =
      (assemble source).mapError (AssemblyError.renumber (numberAfter before.length)) := by
  rw [assemble_eq_rows, assemble_eq_rows, hrows, hrows', Layout.ofLines_insert before after h]
  cases Layout.ofLines (before ++ after) with
  | error e => rfl
  | ok layout =>
    show (do return (← (layout.renumber (numberAfter before.length)).chunks).flatten) =
      (do return (← layout.chunks).flatten : Except AssemblyError (List UInt8)).mapError _
    rw [Layout.chunks_renumber]
    cases layout.chunks with
    | error e => rfl
    | ok chunks => rfl

/-! ## All ways to write a source -/

/-- How a source is written does not matter. Comments, blank space at either end of a line or around
the colon of a label and carriage returns before line feeds leave the result, error texts included.
The case of letters in mnemonics and of hexadecimal digits shows only in the text of an error, and
in its text only as the case of letters. A line without code leaves the bytes, and an error further
down is reported one line further down. -/
theorem assemble_style (source source' : String) :
    (List.Forall₂ (Relation.EqvGen Line.Restyled) (Text.rows source.toList)
        (Text.rows source'.toList) → assemble source' = assemble source) ∧
      (Text.Returned source.toList source'.toList → assemble source' = assemble source) ∧
      (List.Forall₂ Line.Recased (Text.rows source.toList) (Text.rows source'.toList) →
        (assemble source').mapError AssemblyError.upperCase =
          (assemble source).mapError AssemblyError.upperCase) ∧
      ∀ before text after, Text.rows source.toList = before ++ after →
        Text.rows source'.toList = before ++ text :: after → Line.Idle text →
          assemble source' =
            (assemble source).mapError (AssemblyError.renumber (numberAfter before.length)) :=
  ⟨assemble_of_restyled, assemble_of_returned, assemble_of_recased,
    fun _ _ _ => assemble_of_inserted⟩

/-- A branch to a label that is not defined, below a line that can be written in many ways. -/
def branchDown : String :=
  "up: lda #$0a\nbcc down"

theorem assemble_style_of_branchDown :
    assemble branchDown = .error ⟨2, .undefinedLabel "down"⟩ ∧
      assemble "up : lda #$0a; ten\nbcc down" = assemble branchDown ∧
      assemble "up: lda #$0a\r\nbcc down" = assemble branchDown ∧
      (assemble "up: LdA #$0A\nbcc down").mapError AssemblyError.upperCase =
        (assemble branchDown).mapError AssemblyError.upperCase ∧
      assemble "up: lda #$0a\n; ten\nbcc down" =
        (assemble branchDown).mapError (AssemblyError.renumber (numberAfter 1)) := by
  have hrows : Text.rows branchDown.toList = ["up: lda #$0a".toList, "bcc down".toList] := by rfl
  refine ⟨by rfl, (assemble_style branchDown _).1 ?_, (assemble_style branchDown _).2.1 ?_,
    (assemble_style branchDown _).2.2.1 ?_,
    (assemble_style branchDown _).2.2.2 ["up: lda #$0a".toList] "; ten".toList
      ["bcc down".toList] hrows (by rfl) (by decide)⟩
  · rw [hrows]
    have hcolon : Line.Restyled "up: lda #$0a".toList "up : lda #$0a".toList :=
      @Line.Restyled.beforeColon "up".toList [' '] " lda #$0a".toList (by decide) (by decide)
        (List.forall_mem_singleton.2 (by decide))
    have hcomment : Line.Restyled "up : lda #$0a".toList "up : lda #$0a; ten".toList :=
      .comment "up : lda #$0a".toList " ten".toList
    exact .cons (.trans _ _ _ (.rel _ _ hcolon) (.rel _ _ hcomment)) (.cons (.refl _) .nil)
  · exact .append_left "up: lda #$0a".toList (.insert (.refl "bcc down".toList))
  · have hwords : Statement.RecasedWords ["lda".toList, "#$0a".toList]
        ["LdA".toList, "#$0A".toList] :=
      .cons (by decide) (.cons (.immediate (by decide)) .nil)
    rw [hrows]
    refine .cons ?_ (.cons (.same _) .nil)
    exact @Line.Recased.labelled "up".toList " lda #$0a".toList " LdA #$0A".toList []
      (by decide) (by decide) (by decide) ⟨by decide, hwords⟩ nofun

end Cpu6502
