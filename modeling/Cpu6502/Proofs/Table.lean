import Cpu6502.Proofs.Assembly.LetterCase
import Cpu6502.Proofs.Assembly.Soundness
import Cpu6502.Proofs.Assembly.Writing

/-! # The views of the instruction table

The assembler finds rows by their mnemonic and mode and lists the modes of a mnemonic, and the
engine and the disassembler decode opcodes. The three agree, because no two rows have one opcode,
and no two have one mnemonic and one mode.

* `Entries.fill_eq_some`, `Entries.isSome_fill`: an array that is filled with rows one after another
  finds the same rows by their opcodes as a search does.
* `Instruction.find?_eq_some_iff`, `Instruction.mem_modes_iff`: what is found by a mnemonic, and
  what is listed for it, are the rows that have it, in any case of ASCII letters.
* `Statement.ofParts_byte_eq_ok_iff`: a byte after a mnemonic is read in one way.
-/

namespace Cpu6502

/-! ## Case of letters -/

namespace Text

variable {text text' : List Char} {fold : Char → List Char}

/-- A folding of case, which may replace a character by several. Of the ASCII characters it does no
more than lower the letters. -/
def FoldsLetters (fold : Char → List Char) : Prop :=
  ∀ c : Char, c.toNat < 128 → fold c = [c.toLower]

/-- Only ASCII letters have an ASCII letter of the other case. -/
theorem SameLetters.isAscii (h : SameLetters text text') (hascii : ∀ c ∈ text, c.toNat < 128) :
    ∀ c ∈ text', c.toNat < 128 := by
  have hupper (c : Char) : decide (c.toUpper.toNat < 128) = decide (c.toNat < 128) :=
    apply_toUpper (f := fun c => decide (c.toNat < 128)) (by decide) c
  intro c hc
  have hmem : c.toUpper ∈ text.map Char.toUpper := by
    rw [h]
    exact List.mem_map_of_mem hc
  obtain ⟨d, hd, hsame⟩ := List.mem_map.1 hmem
  apply of_decide_eq_true
  rw [← hupper c, ← hsame, hupper d]
  exact decide_eq_true (hascii d hd)

/-- On ASCII texts all foldings agree. -/
theorem sameLetters_of_flatMap_eq (hfold : FoldsLetters fold) (hascii : ∀ c ∈ text, c.toNat < 128)
    (hascii' : ∀ c ∈ text', c.toNat < 128) (h : text.flatMap fold = text'.flatMap fold) :
    SameLetters text text' := by
  -- a folded ASCII text is the same in upper case as before
  have hlower {word : List Char} (hword : ∀ c ∈ word, c.toNat < 128) :
      (word.flatMap fold).map Char.toUpper = word.map Char.toUpper := by
    induction word with
    | nil => rfl
    | cons c word ih =>
      obtain ⟨hc, hrest⟩ := List.forall_mem_cons.1 hword
      have hsame : c.toLower.toUpper = c.toUpper :=
        char_of_codes (p := fun c => c.toLower.toUpper = c.toUpper) (by decide) hc
      rw [List.flatMap_cons, hfold c hc, List.singleton_append, List.map_cons, List.map_cons, hsame,
        ih hrest]
  unfold SameLetters
  rw [← hlower hascii, h, hlower hascii']

end Text

/-! ## Mnemonics by name -/

namespace Mnemonic

variable {m : Mnemonic} {text : String}

theorem isAscii_name (m : Mnemonic) : ∀ c ∈ m.name.toList, c.toNat < 128 := by
  have hall : m.name.toList.all fun c => c.toNat < 128 := by
    cases m <;> decide
  intro c hc
  exact of_decide_eq_true (List.all_eq_true.1 hall c hc)

theorem named?_eq_some_iff :
    named? text = some m ↔ Text.SameLetters m.name.toList text.toList := by
  unfold Text.SameLetters
  rw [map_toUpper_name]
  constructor
  · exact name_of_named?
  · intro h
    have hnamed := named?_of_spelled h.symm
    rwa [String.ofList_toList] at hnamed

end Mnemonic

namespace Instruction

/-! ## Rows by opcode -/

/-- An array with an entry for each opcode. -/
abbrev Entries := Vector (Option Instruction) UInt8.size

namespace Entries

/-- The array without rows. -/
def empty : Entries :=
  Vector.replicate UInt8.size none

/-- Enters a row by its opcode. -/
def enter (entries : Entries) (row : Instruction) : Entries :=
  entries.set row.opcode.toNat (some row) row.opcode.toNat_lt

/-- Enters rows one after another, unless two of them have one opcode. -/
def fill (entries : Entries) : List Instruction → Option Entries
  | [] => some entries
  | row :: rows => if entries[row.opcode.toFin].isSome then none else (entries.enter row).fill rows

variable {entries filled : Entries} {row : Instruction} {rows : List Instruction} {opcode : UInt8}

theorem getElem_empty (opcode : UInt8) : empty[opcode.toFin] = none :=
  Vector.getElem_replicate _

theorem getElem_enter_self (entries : Entries) (row : Instruction) :
    (entries.enter row)[row.opcode.toFin] = some row :=
  Vector.getElem_set_self _

theorem getElem_enter_of_ne (entries : Entries) (h : row.opcode ≠ opcode) :
    (entries.enter row)[opcode.toFin] = entries[opcode.toFin] :=
  Vector.getElem_set_ne _ _ fun heq => h (UInt8.toNat_inj.1 heq)

/-- No entry is replaced. -/
theorem fill_keeps (h : entries.fill rows = some filled)
    (hrow : entries[opcode.toFin] = some row) : filled[opcode.toFin] = some row := by
  induction rows generalizing entries with
  | nil =>
    cases h
    exact hrow
  | cons first rows ih =>
    unfold fill at h
    split at h
    · cases h
    · -- the first row is entered elsewhere, as there is a row here already
      rename_i hfree
      apply ih h
      have hne : first.opcode ≠ opcode := by
        rintro rfl
        rw [hrow] at hfree
        exact hfree rfl
      rw [getElem_enter_of_ne entries hne, hrow]

/-- The entries are found by searching the rows. -/
theorem fill_eq_some (h : entries.fill rows = some filled) (opcode : UInt8) :
    filled[opcode.toFin] = (rows.find? (·.opcode = opcode)).or entries[opcode.toFin] := by
  induction rows generalizing entries with
  | nil =>
    cases h
    rfl
  | cons row rows ih =>
    unfold fill at h
    split at h
    · cases h
    · by_cases hopcode : row.opcode = opcode
      · -- the row has been entered, and no later one takes its place
        subst hopcode
        rw [List.find?_cons_of_pos (by simp), Option.some_or]
        exact fill_keeps h (getElem_enter_self entries row)
      · rw [List.find?_cons_of_neg (by simpa using hopcode), ih h,
          getElem_enter_of_ne entries hopcode]

/-- Rows whose opcodes differ can be entered where no other row is. -/
theorem isSome_fill (hdistinct : (rows.map (·.opcode)).Nodup)
    (hfree : ∀ row ∈ rows, entries[row.opcode.toFin] = none) : (entries.fill rows).isSome := by
  induction rows generalizing entries with
  | nil => rfl
  | cons row rows ih =>
    rw [List.map_cons, List.nodup_cons] at hdistinct
    obtain ⟨hfirst, hrest⟩ := List.forall_mem_cons.1 hfree
    unfold fill
    rw [hfirst, if_neg (by simp)]
    -- once the first row is entered, the others still find their entries free
    apply ih hdistinct.2
    intro other hother
    have hne : row.opcode ≠ other.opcode := by
      intro heq
      exact hdistinct.1 (heq ▸ List.mem_map_of_mem hother)
    rw [getElem_enter_of_ne entries hne, hrest other hother]

/-- The rows of the table have different opcodes, and the array of them decodes each opcode. -/
theorem exists_filled : ∃ entries, empty.fill table = some entries ∧
    ∀ opcode, entries[opcode.toFin] = decode? opcode := by
  have hsome : (empty.fill table).isSome :=
    isSome_fill (by decide) fun row _ => getElem_empty row.opcode
  obtain ⟨entries, hentries⟩ := Option.isSome_iff_exists.1 hsome
  refine ⟨entries, hentries, ?_⟩
  intro opcode
  rw [fill_eq_some hentries, getElem_empty, Option.or_none]
  rfl

end Entries

/-! ## Rows by mnemonic -/

/-- The row is one of the table, and the text is its mnemonic in any case of ASCII letters. -/
structure Named (row : Instruction) (text : String) : Prop where
  mem_table : row ∈ table
  letters : Text.SameLetters row.mnemonic.name.toList text.toList

variable {row row' : Instruction} {text text' : String} {mode : AddressingMode}

theorem named_iff : row.Named text ↔ row ∈ table ∧ Mnemonic.named? text = some row.mnemonic := by
  rw [Mnemonic.named?_eq_some_iff]
  exact ⟨fun h => ⟨h.mem_table, h.letters⟩, fun h => ⟨h.1, h.2⟩⟩

/-- Rows of one mnemonic differ in their modes. -/
theorem Named.unique (h : row.Named text) (h' : row'.Named text) (hmode : row'.mode = row.mode) :
    row' = row := by
  have hname : row'.mnemonic.name.toList.map Char.toUpper =
      row.mnemonic.name.toList.map Char.toUpper := h'.letters.trans h.letters.symm
  rw [Mnemonic.map_toUpper_name, Mnemonic.map_toUpper_name] at hname
  exact eq_of_name_of_mode h.mem_table h'.mem_table hname hmode

theorem find?_eq_some_iff : find? text mode = some row ↔ row.Named text ∧ row.mode = mode := by
  rw [named_iff]
  constructor
  · intro h
    obtain ⟨hrow, hnamed, hmode⟩ := of_find? h
    exact ⟨⟨hrow, hnamed⟩, hmode⟩
  · rintro ⟨⟨hrow, hnamed⟩, rfl⟩
    have hfind := find?_name hrow
    unfold find? at hfind ⊢
    rw [hnamed]
    rwa [Mnemonic.named?_name] at hfind

theorem mem_modes_iff :
    mode ∈ modes text ↔ ∃ row : Instruction, row.Named text ∧ row.mode = mode := by
  simp only [named_iff]
  unfold modes
  cases Mnemonic.named? text with
  | none => simp
  | some m =>
    rw [Option.map_some, Option.getD_some, modesOf, List.mem_map]
    simp only [List.mem_filter, decide_eq_true_eq, Option.some.injEq, eq_comm (a := m)]

theorem isSome_find?_iff : (find? text mode).isSome ↔ mode ∈ modes text := by
  rw [Option.isSome_iff_exists, mem_modes_iff]
  exact exists_congr fun row => find?_eq_some_iff

/-- Where no row has the mnemonic, nothing is found. -/
theorem unfound (h : ∀ row : Instruction, ¬row.Named text) :
    (∀ mode, find? text mode = none) ∧ modes text = [] := by
  have hmodes : modes text = [] := by
    rw [List.eq_nil_iff_forall_not_mem]
    intro mode hmode
    obtain ⟨row, hrow, -⟩ := mem_modes_iff.1 hmode
    exact h row hrow
  refine ⟨?_, hmodes⟩
  intro mode
  rw [← Option.not_isSome_iff_eq_none, isSome_find?_iff, hmodes]
  exact List.not_mem_nil

/-- Only the case of ASCII letters is disregarded. -/
theorem not_named_of_flatMap_eq {fold : Char → List Char} (hfold : Text.FoldsLetters fold)
    {m : Mnemonic} (h : m.name.toList.flatMap fold = text.toList.flatMap fold)
    (hne : ¬Text.SameLetters m.name.toList text.toList) (row : Instruction) : ¬row.Named text := by
  intro hrow
  -- a text with a row is an ASCII text, so the folding cannot have matched more than its letters
  have hascii := hrow.letters.isAscii row.mnemonic.isAscii_name
  exact hne (Text.sameLetters_of_flatMap_eq hfold m.isAscii_name hascii h)

/-- The Kelvin sign folds to the letter k, but it is no ASCII letter. -/
example : find? "br\u212A" .implied = none := by
  decide

/-- A mnemonic of a branch has no other row. -/
theorem Named.unique_of_relative (h : row.Named text) (h' : row'.Named text)
    (hmode : row.mode = .relative) : row' = row := by
  refine h.unique h' ?_
  -- whether a row is relative depends on its mnemonic alone, and they have the same one
  have hsame := Option.some.inj ((named_iff.1 h').2.symm.trans (named_iff.1 h).2)
  rw [hmode, mode_eq_relative_iff h'.mem_table, hsame, ← mode_eq_relative_iff h.mem_table, hmode]

/-- Holds of the rows whose operand is written as a byte after a dollar sign. -/
def TakesByte (row : Instruction) : Prop :=
  row.mode = .zeroPage ∨ row.mode = .relative

/-- A mnemonic has one row at most whose operand is written so. -/
theorem Named.unique_of_takesByte (h : row.Named text) (h' : row'.Named text)
    (hbyte : row.TakesByte) (hbyte' : row'.TakesByte) : row' = row := by
  rcases hbyte with hmode | hmode
  · rcases hbyte' with hmode' | hmode'
    · exact h.unique h' (hmode'.trans hmode.symm)
    · exact (h'.unique_of_relative h hmode').symm
  · exact h.unique_of_relative h' hmode

end Instruction

/-! ## Statements -/

namespace Statement

open Instruction

variable {statement : Statement} {argument : Argument} {text : String}

theorem ofParts_eq_ok_iff : ofParts text.toList argument = .ok statement ↔
    statement.argument = argument ∧ statement.WellFormed ∧ statement.instruction.Named text := by
  have hletters : statement.instruction.mnemonic.name.toList = text.toList.map Char.toUpper ↔
      Text.SameLetters statement.instruction.mnemonic.name.toList text.toList := by
    unfold Text.SameLetters
    rw [Mnemonic.map_toUpper_name]
  constructor
  · intro h
    obtain ⟨hargument, hformed, hspelled⟩ := of_ofParts h
    exact ⟨hargument, hformed, hformed.mem_table, hletters.1 hspelled⟩
  · rintro ⟨rfl, hformed, hnamed⟩
    exact ofParts_of_spelled hformed (hletters.2 hnamed.letters).symm

/-- A byte after a mnemonic is the operand of the row of the mnemonic that takes one. -/
theorem ofParts_byte_eq_ok_iff {value : UInt8} {row : Instruction} :
    ofParts text.toList (.byte value) = .ok ⟨row, .byte value⟩ ↔
      row.Named text ∧ row.TakesByte := by
  rw [ofParts_eq_ok_iff]
  constructor
  · rintro ⟨-, hformed, hnamed⟩
    exact ⟨hnamed, (mode_eq_mode_byte_iff hnamed.mem_table value).1 hformed.mode⟩
  · rintro ⟨hnamed, hbyte⟩
    have hmode := (mode_eq_mode_byte_iff hnamed.mem_table value).2 hbyte
    exact ⟨rfl, ⟨hnamed.mem_table, hmode⟩, hnamed⟩

end Statement

/-! ## All views -/

namespace Instruction

/-- The views of the table agree on every text. An array of 256 entries takes every row in and
decodes as a search of the rows does. A row is found in a mode if and only if the mode is listed; it
is then the only row of the mnemonic in the mode, and its opcode decodes to it. Every row that an
opcode decodes to is found again, by its mnemonic in any case of ASCII letters and its mode. Texts
that differ only in that case have the same rows and modes, and a text that is no mnemonic in any
case of ASCII letters has none, even if a folding that knows further letters makes it one. A
mnemonic of a branch has no other row, so a byte after a mnemonic is the operand of one row at
most. -/
theorem views_agree (text : String) :
    (∃ entries, Entries.empty.fill table = some entries ∧
        ∀ opcode, entries[opcode.toFin] = decode? opcode) ∧
      (∀ mode, (find? text mode).isSome ↔ mode ∈ modes text) ∧
      (∀ mode row, find? text mode = some row →
        row.Named text ∧ row.mode = mode ∧ decode? row.opcode = some row ∧
          ∀ row' : Instruction, row'.Named text → row'.mode = mode → row' = row) ∧
      (∀ opcode row, decode? opcode = some row →
        Text.SameLetters row.mnemonic.name.toList text.toList → find? text row.mode = some row) ∧
      (∀ text' : String, Text.SameLetters text.toList text'.toList →
        find? text' = find? text ∧ modes text' = modes text) ∧
      ((∀ row : Instruction, ¬row.Named text) →
        (∀ mode, find? text mode = none) ∧ modes text = []) ∧
      (∀ fold, Text.FoldsLetters fold → ∀ m : Mnemonic,
        m.name.toList.flatMap fold = text.toList.flatMap fold →
          ¬Text.SameLetters m.name.toList text.toList →
            (∀ mode, find? text mode = none) ∧ modes text = []) ∧
      (∀ row row' : Instruction, row.Named text → row'.Named text → row.mode = .relative →
        row' = row) ∧
      (∀ value row, Statement.ofParts text.toList (.byte value) = .ok ⟨row, .byte value⟩ ↔
        row.Named text ∧ row.TakesByte) ∧
      ∀ row row' : Instruction, row.Named text → row'.Named text → row.TakesByte →
        row'.TakesByte → row' = row := by
  refine ⟨Entries.exists_filled, fun mode => isSome_find?_iff, ?_, ?_, ?_, unfound, ?_,
    fun row row' => Named.unique_of_relative, fun value row => Statement.ofParts_byte_eq_ok_iff,
    fun row row' => Named.unique_of_takesByte⟩
  · intro mode row hfind
    obtain ⟨hnamed, rfl⟩ := find?_eq_some_iff.1 hfind
    exact ⟨hnamed, rfl, decode?_opcode hnamed.mem_table, fun row' => hnamed.unique⟩
  · intro opcode row hdecode hletters
    exact find?_eq_some_iff.2 ⟨⟨(decode?_eq_some hdecode).1, hletters⟩, rfl⟩
  · intro text' hsame
    refine ⟨find?_congr hsame, ?_⟩
    unfold modes
    rw [Mnemonic.named?_congr hsame]
  · intro fold hfold m hmatch hne
    exact unfound (not_named_of_flatMap_eq hfold hmatch hne)

/-- A folding that knows the Kelvin sign, the long s and the ligature of s and t. -/
def foldWidely (c : Char) : List Char :=
  if c = '\u212A' then ['k']
  else if c = '\u017F' then ['s']
  else if c = '\uFB06' then ['s', 't']
  else [c.toLower]

theorem foldsLetters_foldWidely : Text.FoldsLetters foldWidely := by
  intro c hc
  have hne {d : Char} (hd : 128 ≤ d.toNat) : c ≠ d := by
    rintro rfl
    omega
  unfold foldWidely
  rw [if_neg (hne (by decide)), if_neg (hne (by decide)), if_neg (hne (by decide))]

theorem views_agree_of_spellings :
    let branch : Instruction := ⟨0xB0, .bcs, .relative, 2⟩
    decode? 0xB0 = some branch ∧ find? "bCs" .relative = some branch ∧
      find? "BCS" = find? "bCs" ∧ (∀ row : Instruction, row.Named "bCs" → row = branch) ∧
      (∀ row : Instruction, row.Named "bCs" → row.TakesByte → row = branch) ∧
      Statement.ofParts "bCs".toList (.byte 0xFB) = .ok ⟨branch, .byte 0xFB⟩ ∧
      ((∀ mode, find? "jmp" mode = none) ∧ modes "jmp" = []) ∧
      "STA".toList.flatMap foldWidely = "\uFB06a".toList.flatMap foldWidely ∧
      (∀ mode, find? "\uFB06a" mode = none) ∧ modes "\uFB06a" = [] := by
  intro branch
  obtain ⟨-, -, hfound, hagain, hsame, -, -, hrelative, hread, hone⟩ := views_agree "bCs"
  have hdecode : decode? 0xB0 = some branch := by decide
  have hfind := hagain 0xB0 branch hdecode (by decide)
  obtain ⟨hnamed, -⟩ := hfound .relative branch hfind
  have hjmp (row : Instruction) : ¬row.Named "jmp" := by
    intro h
    have hnone : Mnemonic.named? "jmp" = none := by decide
    rw [(named_iff.1 h).2] at hnone
    cases hnone
  obtain ⟨-, -, -, -, -, hunknown, -⟩ := views_agree "jmp"
  obtain ⟨-, -, -, -, -, -, hfolded, -⟩ := views_agree "\uFB06a"
  have hfolds : "STA".toList.flatMap foldWidely = "\uFB06a".toList.flatMap foldWidely := by decide
  exact ⟨hdecode, hfind, (hsame "BCS" (by decide)).1,
    fun row hrow => hrelative branch row hnamed hrow rfl,
    fun row hrow => hone branch row hnamed hrow (.inr rfl),
    (hread 0xFB branch).2 ⟨hnamed, .inr rfl⟩, hunknown hjmp, hfolds,
    hfolded foldWidely foldsLetters_foldWidely .sta hfolds (by decide)⟩

end Instruction

end Cpu6502
