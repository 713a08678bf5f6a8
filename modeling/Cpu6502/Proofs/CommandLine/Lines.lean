import Cpu6502.Proofs.Assembly.Reading
import Cpu6502.Proofs.CommandLine.Proceedings
import Cpu6502.Proofs.Json.Reading

/-! # Lines of the output

A line that is printed holds no line feed, whatever the processor holds and whatever the command
line says: texts of the user are quoted or escaped where they are shown, or have been found to name
a value. So the text on a stream falls into the lines that were printed (`pieces_streamText`).
-/

namespace Cpu6502

/-- Holds of a text that stays on one line. -/
def OneLine (text : String) : Prop :=
  '\n' ∉ text.toList

instance (text : String) : Decidable (OneLine text) :=
  inferInstanceAs (Decidable ('\n' ∉ text.toList))

namespace OneLine

variable {s t : String}

@[simp] theorem append_iff : OneLine (s ++ t) ↔ OneLine s ∧ OneLine t := by
  unfold OneLine
  rw [String.toList_append, List.mem_append, not_or]

@[simp] theorem toString_iff : OneLine (toString s) ↔ OneLine s := Iff.rfl

theorem intercalate {separator : String} (hseparator : OneLine separator) {texts : List String}
    (h : ∀ text ∈ texts, OneLine text) : OneLine (separator.intercalate texts) := by
  induction texts with
  | nil => exact List.not_mem_nil
  | cons first rest ih =>
    have hfirst := h first List.mem_cons_self
    have hrest := ih fun text htext => h text (List.mem_cons_of_mem _ htext)
    cases rest with
    | nil =>
      rw [String.intercalate_singleton]
      exact hfirst
    | cons second rest =>
      rw [String.intercalate_cons_cons]
      exact append_iff.2 ⟨append_iff.2 ⟨hfirst, hseparator⟩, hrest⟩

theorem of_isPlain (h : ∀ c ∈ s.toList, isPlain c) : OneLine s := by
  intro hmem
  exact absurd (h _ hmem) (by decide)

theorem digits (width value : Nat) : OneLine (String.ofList (Hex.digits width value)) := by
  apply of_isPlain
  intro c hc
  rw [String.toList_ofList] at hc
  exact isPlain_of_mem_digits hc

@[simp] theorem byte (value : UInt8) : OneLine (Hex.byte value) :=
  digits 2 value.toNat

@[simp] theorem word (value : UInt16) : OneLine (Hex.word value) :=
  digits 4 value.toNat

@[simp] theorem column_iff {width : Nat} : OneLine (Text.column width s) ↔ OneLine s := by
  have hpadding : OneLine (String.ofList (List.replicate (width - s.length) ' ')) := by
    unfold OneLine
    rw [String.toList_ofList]
    intro h
    exact absurd (List.eq_of_mem_replicate h) (by decide)
  unfold Text.column
  rw [append_iff, and_iff_left hpadding]

@[simp] theorem name (m : Mnemonic) : OneLine m.name :=
  of_isPlain m.isWord_name.plain

@[simp] theorem flags (f : Flags) : OneLine f.text := by
  have hall : ∀ n v b d i z c : Bool, '\n' ∉ Flags.letters ⟨n, v, b, d, i, z, c⟩ := by decide
  obtain ⟨n, v, b, d, i, z, c⟩ := f
  unfold OneLine Flags.text
  rw [String.toList_ofList]
  exact hall n v b d i z c

end OneLine

/-! ## Digits -/

theorem newline_not_mem_toDigits {base n : Nat} (hbase : 1 < base) (hle : base ≤ 16) :
    '\n' ∉ Nat.toDigits base n := by
  intro h
  obtain ⟨d, hd, hc⟩ := exists_digit_of_mem_toDigits hbase h
  have hall : ∀ v : Fin 16, v.val.digitChar ≠ '\n' := by decide
  exact hall ⟨d, by omega⟩ hc.symm

@[simp] theorem OneLine.nat (n : Nat) : OneLine (toString n) := by
  unfold OneLine
  rw [Nat.toString_eq_ofList_toDigits, String.toList_ofList]
  exact newline_not_mem_toDigits (by decide) (by decide)

/-! ## Quoted texts -/

namespace Text

theorem newline_not_mem_escape (c : Char) : '\n' ∉ (escape c).toList := by
  unfold escape
  split
  · decide
  · decide
  · decide
  · decide
  · decide
  · decide
  · next hne _ _ =>
    split
    · simpa using fun h => hne h.symm
    · simp [Hex.lower, String.toList_append,
        newline_not_mem_toDigits (show 1 < 16 by decide) (Nat.le_refl _)]

theorem oneLine_quoted (text : String) : OneLine (quoted text) := by
  unfold OneLine quoted
  simp [String.toList_append, String.toList_join, newline_not_mem_escape]

end Text

/-! ## Events and listings -/

theorem oneLine_text (event : TraceEvent) : OneLine event.text := by
  unfold TraceEvent.text
  simp only [OneLine.append_iff, OneLine.word, OneLine.byte, OneLine.column_iff, OneLine.name,
    OneLine.flags, OneLine.nat, and_true, true_and]
  decide

theorem oneLine_rawBytes (code : Array UInt8) (pc : UInt16) : OneLine (rawBytes code pc) := by
  refine OneLine.intercalate (by decide) ?_
  intro text htext
  obtain ⟨i, -, rfl⟩ := List.mem_map.1 htext
  exact .byte _

theorem Item.oneLine_text (pc : UInt16) (item : Item) : OneLine (item.text pc) := by
  unfold Item.text
  cases item with
  | data value =>
    simp only [OneLine.append_iff, OneLine.byte, and_true]
    decide
  | instruction row operand =>
    dsimp only
    cases row.mode with
    | implied => exact .name row.mnemonic
    | immediate | zeroPage | relative =>
      simp only [OneLine.append_iff, OneLine.name, OneLine.byte, OneLine.word, and_true, true_and]
      decide

theorem oneLine_listingLine (code : Array UInt8) (pc : UInt16) : OneLine (listingLine code pc) := by
  unfold listingLine
  simp only [OneLine.append_iff, OneLine.word, OneLine.column_iff, oneLine_rawBytes,
    Item.oneLine_text, and_true, true_and]
  decide

/-! ## JSON -/

namespace Json

/-- Holds of a value whose tokens stay on one line. -/
def Flat (json : Json) : Prop :=
  json.AllTokens fun token => '\n' ∉ token.text

theorem Flat.render {json : Json} (h : json.Flat) : OneLine json.render := by
  unfold OneLine Json.render
  rw [String.toList_ofList, List.mem_flatMap]
  rintro ⟨token, htoken, hmem⟩
  exact h token htoken hmem

theorem flat_bool (value : Bool) : (bool value).Flat := by
  intro token htoken
  unfold tokens at htoken
  rw [List.mem_singleton.1 htoken]
  cases value with
  | true => decide
  | false => decide

theorem flat_ofNat (n : Nat) : (ofNat n).Flat := by
  intro token htoken
  unfold ofNat tokens at htoken
  rw [List.mem_singleton.1 htoken]
  exact newline_not_mem_toDigits (by decide) (by decide)

theorem newline_not_mem_escape (c : Char) : '\n' ∉ escape c := by
  by_cases hc : c.toNat < 32
  · exact char_of_codes (p := fun c => '\n' ∉ escape c) (by decide) hc
  · have hspace : ¬c < ' ' := by
      intro h
      exact hc (Nat.lt_of_lt_of_le (UInt32.lt_iff_toNat_lt.1 h) (Nat.le_refl _))
    have hne : '\n' ≠ c := by
      rintro rfl
      exact hc (by decide)
    unfold escape
    split
    · decide
    · decide
    · decide
    · decide
    · decide
    · decide
    · decide
    · rw [if_neg hspace, List.mem_singleton]
      exact hne

theorem flat_ofString (text : String) : (ofString text).Flat := by
  intro token htoken
  unfold ofString tokens at htoken
  rw [List.mem_singleton.1 htoken]
  have hescaped : '\n' ∉ text.toList.flatMap escape := by
    rw [List.mem_flatMap]
    rintro ⟨c, -, hmem⟩
    exact newline_not_mem_escape c hmem
  show '\n' ∉ '"' :: text.toList.flatMap escape ++ ['"']
  simp [hescaped]

theorem flat_array {items : List Json} (h : ∀ item ∈ items, item.Flat) : (array items).Flat :=
  allTokens_array (by decide) h

/-- Holds of a member of an object whose tokens stay on one line. -/
def FlatMember (member : List Char × Json) : Prop :=
  '\n' ∉ member.1 ∧ member.2.Flat

theorem flat_object {members : List (List Char × Json)}
    (h : ∀ member ∈ members, FlatMember member) : (object members).Flat := by
  refine allTokens_object (by decide) ?_
  intro member hmember
  obtain ⟨hkey, hvalue⟩ := h member hmember
  refine ⟨?_, hvalue⟩
  show '\n' ∉ '"' :: member.1 ++ ['"']
  simp [hkey]

end Json

theorem Flags.flat_toJson (f : Flags) : f.toJson.Flat := by
  unfold toJson
  apply Json.flat_object
  simp only [List.forall_mem_cons, Json.FlatMember, Json.flat_bool, List.not_mem_nil,
    false_implies, implies_true, and_true]
  decide

theorem Registers.flat_toJson (r : Registers) : r.toJson.Flat := by
  unfold toJson
  apply Json.flat_object
  simp only [List.forall_mem_cons, Json.FlatMember, Json.flat_ofNat, List.not_mem_nil,
    false_implies, implies_true, and_true]
  decide

theorem TraceEvent.flat_toJson (event : TraceEvent) : event.toJson.Flat := by
  unfold toJson
  apply Json.flat_object
  simp only [List.forall_mem_cons, Json.FlatMember, Json.flat_ofNat, Json.flat_ofString,
    event.registers.flat_toJson, event.flags.flat_toJson, List.not_mem_nil,
    false_implies, implies_true, and_true]
  decide

namespace CommandLine

theorem flat_summaryJson (cpu : Processor) (outcome : RunOutcome)
    (values : List (String × String)) : (summaryJson cpu outcome values).Flat := by
  unfold summaryJson
  generalize hitems : values.map _ = items
  have hvalues : ∀ item ∈ items, item.Flat := by
    intro item hitem
    rw [← hitems] at hitem
    obtain ⟨⟨path, value⟩, -, rfl⟩ := List.mem_map.1 hitem
    apply Json.flat_array
    simp [Json.flat_ofString]
  apply Json.flat_object
  simp only [List.forall_mem_cons, Json.FlatMember, Json.flat_ofNat, Json.flat_ofString,
    cpu.registers.flat_toJson, cpu.flags.flat_toJson, Json.flat_array hvalues,
    List.not_mem_nil, false_implies, implies_true, and_true]
  decide

end CommandLine

/-! ## Values -/

theorem Number.newline_not_mem_of_readDigits {radix bound value n : Nat} {text : List Char}
    (h : readDigits radix bound value text = .ok n) : '\n' ∉ text := by
  induction text generalizing value with
  | nil => exact List.not_mem_nil
  | cons c rest ih =>
    unfold readDigits at h
    split at h
    · cases h
    · next d hd =>
      split at h
      · cases h
      · intro hmem
        rcases List.mem_cons.1 hmem with rfl | hmem
        · have hnone : digit? radix '\n' = none := rfl
          rw [hnone] at hd
          cases hd
        · exact ih h hmem

theorem Number.newline_not_mem_of_read {radix bound n : Nat} {text : List Char}
    (h : read radix bound text = .ok n) : '\n' ∉ text := by
  unfold read at h
  split at h
  · cases h
  · cases h
  · next rest _ =>
    have hrest := newline_not_mem_of_readDigits h
    simpa using hrest
  · exact newline_not_mem_of_readDigits h

theorem Processor.oneLine_of_cellPath? {path : String} {address : UInt16}
    (h : cellPath? path = some address) : OneLine path := by
  unfold cellPath? at h
  split at h
  · next rest hpath =>
    have hdigits : '\n' ∉ cellDigits rest := by
      unfold Number.word at h
      cases hread : Number.read 16 0xFFFF (cellDigits rest) with
      | ok n => exact Number.newline_not_mem_of_read hread
      | error e =>
        rw [hread] at h
        cases h
    have hrest : '\n' ∉ rest := by
      unfold cellDigits at hdigits
      split at hdigits
      · simpa using hdigits
      · exact hdigits
    unfold OneLine
    rw [hpath]
    simpa using hrest
  · cases h

theorem Value.oneLine_render {value : Value} (h : ∀ text, value ≠ .text text) :
    OneLine value.render := by
  cases value with
  | bool value =>
    cases value with
    | true => decide
    | false => decide
  | byte value => exact OneLine.append_iff.2 ⟨by decide, .byte value⟩
  | word value => exact OneLine.append_iff.2 ⟨by decide, .word value⟩
  | count value => exact .nat value.toNat
  | text value => exact absurd rfl (h value)

/-- A path that means something stays on one line, as does the value that it names. -/
theorem Processor.oneLine_of_query {cpu : Processor} {path : String} {value : Value}
    (h : cpu.query path = some value) : OneLine path ∧ OneLine value.render := by
  unfold query at h
  split at h
  · next read hread =>
    have hpaths : ∀ path ∈ queryPaths, OneLine path := by decide
    have hvalues : ∀ field ∈ fields, ∀ text, field.2 cpu ≠ .text text := by simp [fields]
    obtain ⟨before, after, hsplit, -⟩ := List.lookup_eq_some_iff.1 hread
    have hfield : (path, read) ∈ fields := by
      rw [hsplit]
      exact List.mem_append_right _ List.mem_cons_self
    cases h
    exact ⟨hpaths path (List.mem_map_of_mem (f := Prod.fst) hfield),
      Value.oneLine_render (hvalues _ hfield)⟩
  · obtain ⟨address, haddress, rfl⟩ := Option.map_eq_some_iff.1 h
    exact ⟨oneLine_of_cellPath? haddress, OneLine.append_iff.2 ⟨by decide, .byte _⟩⟩

namespace CommandLine

/-! ## Failures of runs -/

theorem oneLine_unimplementedOpcode (opcode : UInt8) (pc : UInt16) :
    OneLine (Fault.unimplementedOpcode opcode pc).message := by
  show OneLine ("unimplemented opcode $" ++ Hex.byte opcode ++ " at $" ++ Hex.word pc)
  simp only [OneLine.append_iff, OneLine.byte, OneLine.word, and_true]
  decide

theorem oneLine_unknownValue (path : String) : OneLine (Failure.unknownValue path).message := by
  have hpaths : OneLine (String.intercalate ", " Processor.queryPaths) :=
    OneLine.intercalate (by decide) (by decide)
  show OneLine ("unknown value " ++ Text.quoted path ++ "; expected one of " ++
    String.intercalate ", " Processor.queryPaths ++ " or memory.XXXX")
  simp only [OneLine.append_iff, Text.oneLine_quoted, hpaths, and_true]
  decide

/-! ## Streams -/

/-- The text on a stream falls into the lines that were printed, each with its line feed. -/
theorem pieces_streamText {lines : Array String} (h : ∀ line ∈ lines.toList, OneLine line) :
    Text.pieces (· == '\n') (streamText lines).toList = lines.toList.map String.toList ++ [[]] := by
  unfold streamText
  generalize lines.toList = lines at h
  induction lines with
  | nil => rfl
  | cons line rest ih =>
    obtain ⟨hline, hrest⟩ := List.forall_mem_cons.1 h
    have hjoin : (String.join ((line :: rest).map (· ++ "\n"))).toList =
        line.toList ++ '\n' :: (String.join (rest.map (· ++ "\n"))).toList := by
      simp [String.toList_join, String.toList_append]
    rw [hjoin, Text.pieces_append_cons _ _ _ (by decide), ih hrest,
      Text.pieces_eq_singleton (Text.not_newline hline)]
    rfl

end CommandLine

end Cpu6502
