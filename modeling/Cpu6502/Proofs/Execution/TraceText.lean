import Cpu6502.Proofs.Execution.Tracing
import Cpu6502.Proofs.Text.Decimal

/-! # Reading a trace

A line of a trace has its columns in fixed places, and the tick count after them. A line is read
column by column, and from what an event shows the event is read back: nothing is lost between the
engine and the text.

* `TraceEvent.ofText?_text`: an event is read from its line.
* `TraceEvent.text_lossless`: so events with the same line are the same, and so are traces.
-/

namespace Cpu6502

variable {α β : Type}

/-! ## Columns -/

/-- A reader takes from the front of a text what it reads. -/
abbrev Reader := StateT (List Char) Option

namespace Reader

/-- Takes a text that must be there. -/
def expect (text : String) : Reader Unit := fun line =>
  if text.toList <+: line then some ((), line.drop text.toList.length) else none

/-- Takes a column of a certain width. -/
def cell (width : Nat) (read : List Char → Option α) : Reader α := fun line =>
  (read (line.take width)).map fun value => (value, line.drop width)

/-- Takes the rest of the line. -/
def remainder (read : List Char → Option α) : Reader α := fun line =>
  (read line).map fun value => (value, [])

/-- What is written is taken for the value when `rest` comes after it. -/
def Takes (reader : Reader α) (written : List Char) (value : α) (rest : List Char) : Prop :=
  reader (written ++ rest) = some (value, rest)

variable {reader : Reader α} {written written' rest : List Char} {value : α}

namespace Takes

theorem expect (text : String) (rest : List Char) :
    (Reader.expect text).Takes text.toList () rest := by
  unfold Takes Reader.expect
  rw [if_pos (List.prefix_append _ _), List.drop_left]

theorem cell {width : Nat} {read : List Char → Option α} (h : read written = some value)
    (hwidth : written.length = width) (rest : List Char) :
    (Reader.cell width read).Takes written value rest := by
  unfold Takes Reader.cell
  rw [List.take_left' hwidth, List.drop_left' hwidth, h]
  rfl

theorem remainder {read : List Char → Option α} (h : read written = some value) :
    (Reader.remainder read).Takes written value [] := by
  unfold Takes Reader.remainder
  rw [List.append_nil, h]
  rfl

/-- One column after another. -/
theorem bind {next : α → Reader β} {value' : β}
    (first : reader.Takes written value (written' ++ rest))
    (second : (next value).Takes written' value' rest) :
    (reader >>= next).Takes (written ++ written') value' rest := by
  unfold Takes at *
  show (reader _).bind _ = _
  rw [List.append_assoc, first]
  exact second

/-- The last column. -/
theorem map {f : α → β} (h : reader.Takes written value rest) :
    (reader >>= fun value => pure (f value)).Takes written (f value) rest := by
  unfold Takes at *
  show (reader _).bind _ = _
  rw [h]
  rfl

end Takes

end Reader

/-! ## Cells -/

namespace Hex

/-- Reads a word of four digits. -/
def word? (text : List Char) : Option UInt16 := do
  let high ← byte? (text.take 2)
  let low ← byte? (text.drop 2)
  return UInt16.ofNat (256 * high.toNat + low.toNat)

theorem digits_four (n : Nat) : digits 4 n = digits 2 (n / 256) ++ digits 2 (n % 256) := by
  have hhigh : n / 16 / 16 = n / 256 := Nat.div_div_eq_div_mul n 16 16
  have hlow : n % 256 / 16 % 16 = n / 16 % 16 := by omega
  have hlast : n % 256 % 16 = n % 16 := by omega
  simp only [digits, hhigh, hlow, hlast, List.nil_append, List.append_assoc]

theorem word?_digits (value : UInt16) : word? (digits 4 value.toNat) = some value := by
  have hlt := value.toNat_lt
  have hhigh : (UInt8.ofNat (value.toNat / 256)).toNat = value.toNat / 256 :=
    UInt8.toNat_ofNat_of_lt (show value.toNat / 256 < 256 by omega)
  have hlow : (UInt8.ofNat (value.toNat % 256)).toNat = value.toNat % 256 :=
    UInt8.toNat_ofNat_of_lt (show value.toNat % 256 < 256 by omega)
  have hvalue : 256 * (value.toNat / 256) + value.toNat % 256 = value.toNat := by omega
  have hread := byte?_digits (UInt8.ofNat (value.toNat / 256))
  have hread' := byte?_digits (UInt8.ofNat (value.toNat % 256))
  rw [hhigh] at hread
  rw [hlow] at hread'
  unfold word?
  rw [digits_four, List.take_left' (length_digits 2 _), List.drop_left' (length_digits 2 _), hread,
    hread']
  simp only [Option.bind_eq_bind, Option.bind_some, hhigh, hlow, hvalue, UInt16.ofNat_toNat]
  rfl

end Hex

namespace Mnemonic

/-- Reads a mnemonic in its column. -/
def ofColumn? (cell : List Char) : Option Mnemonic :=
  all.find? fun m => (Text.column 4 m.name).toList = cell

theorem ofColumn?_column (m : Mnemonic) : ofColumn? (Text.column 4 m.name).toList = some m := by
  cases m <;> rfl

theorem length_column (m : Mnemonic) : (Text.column 4 m.name).toList.length = 4 := by
  cases m <;> rfl

end Mnemonic

namespace Flags

/-- Reads the letter of a flag, which is in upper case if the flag is set. -/
def letter? (upper c : Char) : Option Bool :=
  if c = upper then some true else if c = upper.toLower then some false else none

/-- Reads the letters of the flags. -/
def ofLetters? : List Char → Option Flags
  | [n, v, '-', b, d, i, z, c] => do
    return {
      n := ← letter? 'N' n
      v := ← letter? 'V' v
      b := ← letter? 'B' b
      d := ← letter? 'D' d
      i := ← letter? 'I' i
      z := ← letter? 'Z' z
      c := ← letter? 'C' c }
  | _ => none

theorem ofLetters?_letters (f : Flags) : ofLetters? f.letters = some f := by
  have hall : ∀ n v b d i z c : Bool,
      ofLetters? (letters ⟨n, v, b, d, i, z, c⟩) = some ⟨n, v, b, d, i, z, c⟩ := by
    decide +kernel
  exact hall ..

end Flags

namespace Ticks

/-- Reads a tick count in decimal. -/
def ofDigits? (digits : List Char) : Option Ticks :=
  (Number.read 10 (UInt64.size - 1) digits).toOption.map fun count => ⟨UInt64.ofNat count⟩

theorem ofDigits?_toDigits (ticks : Ticks) :
    ofDigits? (Nat.toDigits 10 ticks.count.toNat) = some ticks := by
  have hread := Number.read_toDigits_of_le (Nat.le_sub_one_of_lt ticks.count.toNat_lt)
  unfold ofDigits?
  rw [hread]
  show some (Ticks.mk (UInt64.ofNat ticks.count.toNat)) = some ticks
  rw [UInt64.ofNat_toNat]

end Ticks

/-! ## Lines -/

namespace TraceEvent

/-- The event is one that an engine may show: its opcode has a row in the table, its mnemonic is that
of the row, and its address is in the program counter. -/
structure Coherent (event : TraceEvent) : Prop where
  row : ∃ row ∈ Instruction.table, row.opcode = event.opcode ∧ row.mnemonic = event.mnemonic
  pc : event.pc = event.registers.pc

/-- Takes an event from a line of a trace. -/
def reader : Reader TraceEvent := do
  let pc ← .cell 4 Hex.word?
  .expect "  "
  let opcode ← .cell 2 Hex.byte?
  .expect "  "
  let mnemonic ← .cell 4 Mnemonic.ofColumn?
  .expect " A:"
  let a ← .cell 2 Hex.byte?
  .expect " X:"
  let x ← .cell 2 Hex.byte?
  .expect " Y:"
  let y ← .cell 2 Hex.byte?
  .expect " SP:"
  let sp ← .cell 2 Hex.byte?
  .expect " P:"
  let flags ← .cell 8 Flags.ofLetters?
  .expect " CYC:"
  let cycles ← .remainder Ticks.ofDigits?
  return { pc, opcode, mnemonic, registers := { a, x, y, sp, pc }, flags, cycles }

/-- Reads an event from a line of a trace. -/
def ofText? (line : String) : Option TraceEvent :=
  (reader line.toList).map Prod.fst

theorem reader_takes {event : TraceEvent} (pc : event.pc = event.registers.pc) :
    reader.Takes event.text.toList event [] := by
  obtain ⟨pc, opcode, mnemonic, ⟨a, x, y, sp, pc'⟩, flags, cycles⟩ := event
  cases pc
  have hword := Reader.Takes.cell (Hex.word?_digits pc) (Hex.length_digits 4 _)
  have hbyte := fun value : UInt8 =>
    Reader.Takes.cell (Hex.byte?_digits value) (Hex.length_digits 2 _)
  have hmnemonic := Reader.Takes.cell mnemonic.ofColumn?_column mnemonic.length_column
  have hflags := Reader.Takes.cell flags.ofLetters?_letters rfl
  have hcycles := Reader.Takes.remainder cycles.ofDigits?_toDigits
  unfold text reader
  simp only [Hex.word, Hex.byte, Flags.text, Nat.toString_eq_ofList_toDigits,
    String.toList_append, String.toList_ofList, List.append_assoc]
  refine .bind (hword _) (.bind (.expect _ _) ?_)
  refine .bind (hbyte opcode _) (.bind (.expect _ _) ?_)
  refine .bind (hmnemonic _) (.bind (.expect _ _) ?_)
  refine .bind (hbyte a _) (.bind (.expect _ _) ?_)
  refine .bind (hbyte x _) (.bind (.expect _ _) ?_)
  refine .bind (hbyte y _) (.bind (.expect _ _) ?_)
  refine .bind (hbyte sp _) (.bind (.expect _ _) ?_)
  refine .bind (hflags _) (.bind (.expect _ _) ?_)
  exact hcycles.map

/-- An event is read from its line. -/
theorem ofText?_text {event : TraceEvent} (h : event.Coherent) :
    ofText? event.text = some event := by
  have htakes := reader_takes h.pc
  unfold Reader.Takes at htakes
  rw [List.append_nil] at htakes
  unfold ofText?
  rw [htakes]
  rfl

theorem eq_of_text_eq {event event' : TraceEvent} (h : event.Coherent) (h' : event'.Coherent)
    (htext : event.text = event'.text) : event = event' := by
  have hread := congrArg ofText? htext
  rw [ofText?_text h, ofText?_text h'] at hread
  exact Option.some.inj hread

theorem eq_of_map_text_eq {events events' : List TraceEvent} (h : ∀ event ∈ events, event.Coherent)
    (h' : ∀ event ∈ events', event.Coherent) (htext : events.map text = events'.map text) :
    events = events' := by
  induction events generalizing events' with
  | nil => exact (List.map_eq_nil_iff.1 htext.symm).symm
  | cons event events ih =>
    cases events' with
    | nil => cases htext
    | cons event' events' =>
      rw [List.forall_mem_cons] at h h'
      obtain ⟨hfirst, hrest⟩ := List.cons.inj htext
      rw [eq_of_text_eq h.1 h'.1 hfirst, ih h.2 h'.2 hrest]

theorem Describes.coherent {event : TraceEvent} {cpu : Processor} (h : event.Describes cpu) :
    event.Coherent := by
  refine ⟨h.mnemonic, ?_⟩
  rw [h.pc, h.registers]

end TraceEvent

theorem Chronicle.coherent {cpu last : Processor} {events : List TraceEvent}
    (h : Chronicle cpu events last) : ∀ event ∈ events, event.Coherent := by
  intro event hevent
  obtain ⟨index, hindex⟩ := List.getElem?_of_mem hevent
  exact (h.describes index event hindex).coherent

/-- The events of a run are coherent. -/
theorem Course.Faithful.coherent {cpu : Processor} {origin : UInt16} {course : Course}
    (h : course.Faithful cpu origin) : ∀ event ∈ course.events, event.Coherent := by
  cases h with
  | idle => exact fun event hevent => nomatch hevent
  | ended running chronicle | stuck running chronicle => exact chronicle.coherent
  | exhausted running chronicle describes =>
    intro event hevent
    rcases List.mem_append.1 hevent with hbefore | hlast
    · exact chronicle.coherent event hbefore
    · rw [List.mem_singleton.1 hlast]
      exact describes.coherent

namespace TraceEvent

/-- A trace in text loses nothing. An event is read back from its line with everything in it, so two
events that have the same line are the same. The events of every run are of this kind, and so runs
whose traces have the same lines have the same events. -/
theorem text_lossless :
    (∀ event : TraceEvent, event.Coherent → ofText? event.text = some event) ∧
      (∀ event event' : TraceEvent, event.Coherent → event'.Coherent →
        event.text = event'.text → event = event') ∧
      ∀ (cpu cpu' : Processor) (origin origin' : UInt16) (limit limit' : Limit),
        let events := (cpu.course origin limit).events
        let events' := (cpu'.course origin' limit').events
        (∀ event ∈ events, event.Coherent) ∧
          (events.map text = events'.map text → events = events') := by
  refine ⟨fun _ => ofText?_text, fun _ _ => eq_of_text_eq, ?_⟩
  intro cpu cpu' origin origin' limit limit' events events'
  have hcoherent := (Engine.course_faithful cpu origin limit).coherent
  have hcoherent' := (Engine.course_faithful cpu' origin' limit').coherent
  exact ⟨hcoherent, eq_of_map_text_eq hcoherent hcoherent'⟩

/-- The line of the last tick that can be counted. -/
theorem text_lossless_at_last_tick :
    let event : TraceEvent :=
      ⟨0xFFFF, 0xB0, .bcs, ⟨0x0A, 0xFF, 0, 0xFD, 0xFFFF⟩, { n := true, c := true },
        ⟨18446744073709551615⟩⟩
    event.Coherent ∧
      event.text = "FFFF  B0  BCS  A:0A X:FF Y:00 SP:FD P:Nv-bdizC CYC:18446744073709551615" ∧
      ofText? event.text = some event := by
  intro event
  have hcoherent : event.Coherent :=
    ⟨⟨⟨0xB0, .bcs, .relative, 2⟩, by decide, rfl, rfl⟩, rfl⟩
  exact ⟨hcoherent, by decide +kernel, text_lossless.1 event hcoherent⟩

end TraceEvent

end Cpu6502
