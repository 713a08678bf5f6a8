import Cpu6502.Proofs.Assembly.Writing
import Cpu6502.Proofs.CommandLine.Proceedings

/-! # Where a program comes from

A program is given as a list of hexadecimal bytes, as a file of machine code, or as a file of
assembly text. What the command does depends on the bytes: of the form in which they were given it
only notes the name, in one record of the log. So the three forms can take each other's place
(`sources_interchangeable`). They differ in whether they may be empty, which only assembly text may.
-/

namespace Cpu6502

open Instruction

/-! ## Loading -/

/-- The argument stands for these bytes in this form, where `isAssembly` asks for assembly text. -/
inductive Obtains (files : FileSystem) (argument : String) :
    (isAssembly : Bool) → List UInt8 → Source → Prop where
  | hex {bytes : List UInt8} (no_file : ∀ contents, files argument ≠ .file contents)
      (read : bytesOfHex argument = .ok bytes) : Obtains files argument false bytes .hex
  | binary {contents : ByteArray} (file : files argument = .file contents)
      (ne_nil : contents.data.toList ≠ []) :
      Obtains files argument false contents.data.toList .binary
  | assembly {contents : ByteArray} {text : String} {bytes : List UInt8}
      (file : files argument = .file contents) (read : String.fromUTF8? contents = some text)
      (assembles : assemble text = .ok bytes) : Obtains files argument true bytes .assembly

section Loading

variable {files : FileSystem} {argument : String} {isAssembly : Bool} {bytes result : List UInt8}
  {source : Source}

theorem nonEmpty_eq_ok_iff : nonEmpty bytes = .ok result ↔ bytes ≠ [] ∧ bytes = result := by
  unfold nonEmpty
  split
  · next hnil => simp [hnil]
  · next hne => simp [hne]

theorem exists_of_bind_eq_ok {ε α β : Type} {x : Except ε α} {f : α → Except ε β} {b : β}
    (h : x >>= f = .ok b) : ∃ a, x = .ok a ∧ f a = .ok b := by
  cases x with
  | error e => cases h
  | ok a => exact ⟨a, rfl, h⟩

theorem bytesOfHex_ne_nil (h : bytesOfHex argument = .ok bytes) : bytes ≠ [] := by
  unfold bytesOfHex at h
  obtain ⟨found, -, hfound⟩ := exists_of_bind_eq_ok h
  obtain ⟨hne, rfl⟩ := nonEmpty_eq_ok_iff.1 hfound
  exact hne

/-- A program that is marked with its form is the program in that form. -/
theorem map_mark_eq_ok_iff {ε : Type} {given : Source} {x : Except ε (List UInt8)} :
    x.map (·, given) = .ok (bytes, source) ↔ x = .ok bytes ∧ given = source := by
  cases x with
  | error e => exact ⟨nofun, nofun⟩
  | ok found => simp [Except.map]

theorem Obtains.loadProgram (h : Obtains files argument isAssembly bytes source) :
    Cpu6502.loadProgram files argument isAssembly = .ok (bytes, source) := by
  unfold Cpu6502.loadProgram
  cases h with
  | hex no_file read =>
    split
    · next contents h _ => exact absurd h (no_file contents)
    · next contents h _ => exact absurd h (no_file contents)
    · next h _ => cases h
    · exact map_mark_eq_ok_iff.2 ⟨CommandLine.mapError_eq_ok_iff.2 read, rfl⟩
  | binary file ne_nil =>
    rw [file]
    refine map_mark_eq_ok_iff.2 ⟨CommandLine.mapError_eq_ok_iff.2 ?_, rfl⟩
    unfold bytesOfFile FileSystem.read
    rw [file]
    exact nonEmpty_eq_ok_iff.2 ⟨ne_nil, rfl⟩
  | assembly file read assembles =>
    rw [file]
    refine map_mark_eq_ok_iff.2 ⟨?_, rfl⟩
    unfold assembleFile
    rw [read]
    exact CommandLine.mapError_eq_ok_iff.2 assembles

theorem obtains_of_loadProgram
    (h : Cpu6502.loadProgram files argument isAssembly = .ok (bytes, source)) :
    Obtains files argument isAssembly bytes source := by
  unfold Cpu6502.loadProgram at h
  split at h
  · next contents file =>
    obtain ⟨hassembled, rfl⟩ := map_mark_eq_ok_iff.1 h
    unfold assembleFile at hassembled
    split at hassembled
    · cases hassembled
    · next text read =>
      exact .assembly file read (CommandLine.mapError_eq_ok_iff.1 hassembled)
  · next contents file =>
    obtain ⟨hread, rfl⟩ := map_mark_eq_ok_iff.1 h
    have hbytes := CommandLine.mapError_eq_ok_iff.1 hread
    unfold bytesOfFile FileSystem.read at hbytes
    rw [file] at hbytes
    obtain ⟨hne, rfl⟩ := nonEmpty_eq_ok_iff.1 hbytes
    exact .binary file hne
  · cases h
  · next no_file =>
    obtain ⟨hread, rfl⟩ := map_mark_eq_ok_iff.1 h
    exact .hex no_file (CommandLine.mapError_eq_ok_iff.1 hread)

/-- The bytes of a source are none if it has no statement. -/
theorem assemble_eq_nil_iff {text : String} (h : assemble text = .ok bytes) :
    bytes = [] ↔ Line.statements (Text.lines text.toList) = [] := by
  obtain ⟨chunks, hreadable, -, hencode, rfl⟩ := assemble_eq_ok_iff.1 h
  have horder := Layout.encodeInOrder_of_encode hreadable hencode
  generalize Line.statements (Text.lines text.toList) = statements at horder ⊢
  cases horder with
  | nil => simp
  | cons first rest =>
    cases first
    simp

/-- Only assembly text can give an empty program. -/
theorem Obtains.nil_iff :
    Obtains files argument isAssembly [] source ↔
      source = .assembly ∧ isAssembly = true ∧ ∃ contents text, files argument = .file contents ∧
        String.fromUTF8? contents = some text ∧ (∃ bytes, assemble text = .ok bytes) ∧
          Line.statements (Text.lines text.toList) = [] := by
  constructor
  · intro h
    generalize hbytes : ([] : List UInt8) = bytes at h
    cases h with
    | hex no_file read => exact absurd hbytes.symm (bytesOfHex_ne_nil read)
    | binary file ne_nil => exact absurd hbytes.symm ne_nil
    | assembly file read assembles =>
      have hnone := (assemble_eq_nil_iff assembles).1 hbytes.symm
      exact ⟨rfl, rfl, _, _, file, read, ⟨_, assembles⟩, hnone⟩
  · rintro ⟨rfl, rfl, contents, text, file, read, ⟨bytes, assembles⟩, hnone⟩
    rw [(assemble_eq_nil_iff assembles).2 hnone] at assembles
    exact .assembly file read assembles

end Loading

namespace CommandLine

/-! ## Reports -/

/-- The reports are the same, except that their logs may differ where one is asked for. -/
structure Report.SameButLog (verbosity : Nat) (report report' : Report) : Prop where
  exit : report.exit = report'.exit
  stdout : report.output.stdout = report'.output.stdout
  stderr : verbosity = 0 → report.output.stderr = report'.output.stderr

namespace Options

/-- The form of a program is noted once, when the program has been obtained. -/
theorem exists_proceedingsOf_eq (options : Options) (program : List UInt8) :
    ∃ events records ending, ∀ source, options.proceedingsOf program source =
      ⟨events, .obtained program.length source options.origin :: records, ending⟩ := by
  unfold proceedingsOf recordsBefore
  cases (Processor.powerUp options.origin).load program options.origin with
  | error cause => exact ⟨_, _, _, fun _ => rfl⟩
  | ok cpu =>
    cases options.list with
    | true => exact ⟨_, _, _, fun _ => rfl⟩
    | false => exact ⟨_, _, _, fun _ => rfl⟩

/-- The note is not a warning. -/
theorem logLines_obtained {options : Options} (h : options.verbosity = 0) (count : Nat)
    (source : Source) (origin : UInt16) (records : List Record) :
    options.logLines (.obtained count source origin :: records) = options.logLines records := by
  unfold logLines
  rw [h, List.filter_cons_of_neg]
  exact Bool.false_ne_true

/-- Records show up in the log alone. -/
theorem sameButLog_reportOf {options : Options} {events : List TraceEvent}
    {records records' : List Record} {ending : Except Failure (Nat × List String)}
    (h : options.verbosity = 0 → options.logLines records = options.logLines records') :
    Report.SameButLog options.verbosity (options.reportOf ⟨events, records, ending⟩)
      (options.reportOf ⟨events, records', ending⟩) := by
  have hstdout : (options.shownOf ⟨events, records, ending⟩).stdout =
      (options.shownOf ⟨events, records', ending⟩).stdout := rfl
  have hshown : options.verbosity = 0 → options.shownOf ⟨events, records, ending⟩ =
      options.shownOf ⟨events, records', ending⟩ := by
    intro hverbosity
    unfold shownOf transcript
    dsimp only
    rw [h hverbosity]
  unfold reportOf
  cases ending with
  | error failure =>
    refine ⟨rfl, hstdout, ?_⟩
    intro hverbosity
    rw [hshown hverbosity]
  | ok done =>
    refine ⟨rfl, ?_, ?_⟩
    · dsimp only
      rw [← Array.toList_inj, Output.toList_stdout_printAll, Output.toList_stdout_printAll, hstdout]
    · intro hverbosity
      rw [hshown hverbosity]

/-- A command does the same to a program in whatever form, and under whatever name, it is given. -/
theorem sameButLog_run (options : Options) {files files' : FileSystem} {argument argument' : String}
    {isAssembly isAssembly' : Bool} {program : List UInt8} {source source' : Source}
    (h : loadProgram files argument isAssembly = .ok (program, source))
    (h' : loadProgram files' argument' isAssembly' = .ok (program, source')) :
    Report.SameButLog options.verbosity
      ({ options with program := argument, asm := isAssembly }.run files)
      ({ options with program := argument', asm := isAssembly' }.run files') := by
  have hrun : ({ options with program := argument, asm := isAssembly } : Options).run files =
      options.reportOf (options.proceedingsOf program source) := run_of_obtained h
  have hrun' : ({ options with program := argument', asm := isAssembly' } : Options).run files' =
      options.reportOf (options.proceedingsOf program source') := run_of_obtained h'
  obtain ⟨events, records, ending, hproceedings⟩ := options.exists_proceedingsOf_eq program
  rw [hrun, hrun', hproceedings, hproceedings]
  apply sameButLog_reportOf
  intro hverbosity
  rw [logLines_obtained hverbosity, logLines_obtained hverbosity]

end Options

/-! ## Three forms of one program -/

/-- One program in three forms: as a list of bytes that names no file, as a file of machine code,
and as a file of assembly text with a statement for each instruction. -/
structure InThreeForms (files : FileSystem) (program : List Encoded)
    (list machine assembly : String) : Prop where
  ne_nil : program ≠ []
  renders : RendersHex (program.flatMap Encoded.bytes) list.toList
  no_file : ∀ contents, files list ≠ .file contents
  holds : ∃ contents, files machine = .file contents ∧
    contents.data.toList = program.flatMap Encoded.bytes
  writes : ∃ contents text, files assembly = .file contents ∧
    String.fromUTF8? contents = some text ∧ WritesProgram program text

section Forms

variable {files : FileSystem} {program : List Encoded} {list machine assembly : String}

theorem flatMap_bytes_ne_nil (h : program ≠ []) : program.flatMap Encoded.bytes ≠ [] := by
  rw [ne_eq, List.flatMap_eq_nil_iff]
  intro hall
  obtain ⟨e, he⟩ := List.exists_mem_of_ne_nil program h
  have hlength := e.length_bytes
  rw [hall e he, Instruction.size, List.length_nil] at hlength
  omega

/-- The program is obtained from each of its forms. -/
theorem InThreeForms.loadProgram (h : InThreeForms files program list machine assembly) :
    let code := program.flatMap Encoded.bytes
    Cpu6502.loadProgram files list false = .ok (code, .hex) ∧
      Cpu6502.loadProgram files machine false = .ok (code, .binary) ∧
        Cpu6502.loadProgram files assembly true = .ok (code, .assembly) := by
  intro code
  have hne : code ≠ [] := flatMap_bytes_ne_nil h.ne_nil
  obtain ⟨contents, hmachine, hcontents⟩ := h.holds
  obtain ⟨text, source, hassembly, hsource, hwrites⟩ := h.writes
  have hbinary : Obtains files machine false contents.data.toList .binary :=
    .binary hmachine (hcontents ▸ hne)
  rw [hcontents] at hbinary
  exact ⟨(Obtains.hex h.no_file (bytesOfHex_of_renders hne h.renders)).loadProgram,
    hbinary.loadProgram, (Obtains.assembly hassembly hsource hwrites.assemble).loadProgram⟩

end Forms

/-- The three forms of a program are marked as what they are, and a command does the same to each of
them. A program that is obtained is not empty, unless it is assembly text without a statement. -/
theorem sources_interchangeable (files : FileSystem) :
    (∀ {program list machine assembly}, InThreeForms files program list machine assembly →
      let code := program.flatMap Encoded.bytes
      (loadProgram files list false = .ok (code, .hex) ∧
        loadProgram files machine false = .ok (code, .binary) ∧
          loadProgram files assembly true = .ok (code, .assembly)) ∧
      ∀ options : Options,
        let report := { options with program := list, asm := false }.run files
        Report.SameButLog options.verbosity report
            ({ options with program := machine, asm := false }.run files) ∧
          Report.SameButLog options.verbosity report
            ({ options with program := assembly, asm := true }.run files)) ∧
    ∀ argument isAssembly,
      (∀ source, loadProgram files argument isAssembly = .ok ([], source) → source = .assembly) ∧
      (loadProgram files argument isAssembly = .ok ([], .assembly) ↔
        isAssembly = true ∧ ∃ contents text, files argument = .file contents ∧
          String.fromUTF8? contents = some text ∧ (∃ bytes, assemble text = .ok bytes) ∧
            Line.statements (Text.lines text.toList) = []) := by
  refine ⟨?_, ?_⟩
  · intro program list machine assembly h
    obtain ⟨hlist, hmachine, hassembly⟩ := h.loadProgram
    refine ⟨h.loadProgram, ?_⟩
    intro options
    exact ⟨options.sameButLog_run hlist hmachine, options.sameButLog_run hlist hassembly⟩
  · intro argument isAssembly
    refine ⟨?_, ?_⟩
    · intro source h
      exact (Obtains.nil_iff.1 (obtains_of_loadProgram h)).1
    · constructor
      · intro h
        exact (Obtains.nil_iff.1 (obtains_of_loadProgram h)).2
      · intro h
        exact (Obtains.nil_iff.2 ⟨rfl, h⟩).loadProgram

/-- A program that has an instruction of each mode. -/
def mixedProgram : List Encoded :=
  Encoded.sequence
    [(⟨0xA9, .lda, .immediate, 2⟩, 0x05), (⟨0x85, .sta, .zeroPage, 3⟩, 0x10),
      (⟨0xB0, .bcs, .relative, 2⟩, 0xFA), (⟨0x00, .brk, .implied, 7⟩, 0x00)] (by decide)

/-- The program as a list of bytes. -/
def mixedList : String := " 0xA9 5\t85 10 b0 0XfA\n0"

/-- The program as assembly text. -/
def mixedText : String := "start: lda #$5 ; five\nSTA $10\n\nbcs $fa\nBrk"

/-- The program as files, and a file of assembly text without a statement. -/
def mixedFiles : FileSystem
  | "mixed.bin" => .file ⟨#[0xA9, 0x05, 0x85, 0x10, 0xB0, 0xFA, 0x00]⟩
  | "mixed.s" => .file mixedText.toUTF8
  | "nothing.s" => .file "nothing: ; but a label".toUTF8
  | _ => .absent .notFound

theorem renders_mixedList : RendersHex (mixedProgram.flatMap Encoded.bytes) mixedList.toList := by
  show RendersHex [0xA9, 0x05, 0x85, 0x10, 0xB0, 0xFA, 0x00]
    ([' '] ++ (['0', 'x', 'A', '9'] ++ ' ' :: ([] ++ (['5'] ++ '\t' ::
      ([] ++ (['8', '5'] ++ ' ' :: ([] ++ (['1', '0'] ++ ' ' ::
        ([] ++ (['b', '0'] ++ ' ' :: ([] ++ (['0', 'X', 'f', 'A'] ++ '\n' ::
          ([] ++ (['0'] ++ []))))))))))))))
  refine .cons (List.forall_mem_singleton.2 (by decide)) (.lower (.two (by decide))) (by decide) ?_
  refine .cons nofun (.bare (.one (by decide) (by decide))) (by decide) ?_
  refine .cons nofun (.bare (.two (by decide))) (by decide) ?_
  refine .cons nofun (.bare (.two (by decide))) (by decide) ?_
  refine .cons nofun (.bare (.two (by decide))) (by decide) ?_
  refine .cons nofun (.upper (.two (by decide))) (by decide) ?_
  exact .last nofun (.bare (.one (by decide) (by decide))) nofun

theorem writesProgram_mixedText : WritesProgram mixedProgram mixedText := by
  have hstatements : Line.statements (Text.lines mixedText.toList) =
      [[['l', 'd', 'a'], ['#', '$', '5']], [['S', 'T', 'A'], ['$', '1', '0']],
        [['b', 'c', 's'], ['$', 'f', 'a']], [['B', 'r', 'k']]] := by decide +kernel
  refine ⟨?_, by decide +kernel, by decide +kernel⟩
  rw [hstatements]
  refine .cons (.immediate (by decide) rfl (.one (by decide) (by decide))) ?_
  refine .cons (.byte (by decide) (.inl rfl) (.two (by decide))) ?_
  refine .cons (.byte (by decide) (.inr rfl) (.two (by decide))) ?_
  exact .cons (.implied (by decide) rfl) .nil

theorem sources_interchangeable_of_mixed :
    InThreeForms mixedFiles mixedProgram mixedList "mixed.bin" "mixed.s" ∧
      (∀ options : Options,
        let report := { options with program := mixedList, asm := false }.run mixedFiles
        Report.SameButLog options.verbosity report
            ({ options with program := "mixed.bin", asm := false }.run mixedFiles) ∧
          Report.SameButLog options.verbosity report
            ({ options with program := "mixed.s", asm := true }.run mixedFiles)) ∧
      loadProgram mixedFiles "nothing.s" true = .ok ([], .assembly) := by
  have hread : ∀ text : String, String.fromUTF8? text.toUTF8 = some text :=
    fun text => dif_pos text.isValidUTF8
  have hforms : InThreeForms mixedFiles mixedProgram mixedList "mixed.bin" "mixed.s" :=
    ⟨by decide, renders_mixedList, nofun, ⟨_, rfl, by decide⟩,
      ⟨_, _, rfl, hread _, writesProgram_mixedText⟩⟩
  obtain ⟨hsame, hnothing⟩ := sources_interchangeable mixedFiles
  have hnone : Line.statements (Text.lines "nothing: ; but a label".toList) = [] := by
    decide +kernel
  have hwrites : WritesProgram [] "nothing: ; but a label" := by
    refine ⟨?_, by decide +kernel, by decide +kernel⟩
    rw [hnone]
    exact .nil
  refine ⟨hforms, (hsame hforms).2, (hnothing "nothing.s" true).2.2 ⟨rfl, ?_⟩⟩
  exact ⟨_, _, rfl, hread _, ⟨_, hwrites.assemble⟩, hnone⟩

end CommandLine

end Cpu6502
