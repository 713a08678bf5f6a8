import Cpu6502.CommandLine.Command
import Cpu6502.Proofs.Execution.Operation

/-! # What the command does with the processor

The command is a sequence of stages, each of which can fail. `Options.command_eq_ok_iff` says when
all of them succeed: the program is obtained and fits into the memory of a processor that has just
been reset, the run ends without a fault, and every value to be shown exists. Then the report of the
processor that the run leaves is printed last.
-/

namespace Cpu6502.CommandLine

variable {σ α β ε ε' : Type}

/-! ## Stages -/

theorem bind_eq_ok_iff {x : EStateM ε σ α} {f : α → EStateM ε σ β} {s s' : σ} {b : β} :
    (x >>= f) s = .ok b s' ↔ ∃ a u, x s = .ok a u ∧ f a u = .ok b s' := by
  change EStateM.bind x f s = _ ↔ _
  unfold EStateM.bind
  cases x s with
  | ok a u =>
    constructor
    · intro h
      exact ⟨a, u, rfl, h⟩
    · rintro ⟨_, _, hsame, h⟩
      cases hsame
      exact h
  | error e u => simp

theorem adaptExcept_eq_ok_iff {f : ε → ε'} {x : EStateM ε σ α} {s s' : σ} {a : α} :
    x.adaptExcept f s = .ok a s' ↔ x s = .ok a s' := by
  unfold EStateM.adaptExcept
  cases x s with
  | ok b u => simp
  | error e u => simp

theorem mapError_eq_ok_iff {x : Except ε α} {f : ε → ε'} {a : α} :
    x.mapError f = .ok a ↔ x = .ok a := by
  cases x with
  | ok b =>
    constructor
    · intro h
      cases h
      rfl
    · intro h
      cases h
      rfl
  | error e =>
    constructor
    · intro h
      cases h
    · intro h
      cases h

theorem ofExcept_eq_ok_iff {x : Except Failure α} {s s' : Session Output} {a : α} :
    ofExcept x s = .ok a s' ↔ x = .ok a ∧ s = s' := by
  cases x with
  | ok b =>
    show EStateM.Result.ok b s = .ok a s' ↔ _
    simp
  | error failure =>
    show EStateM.Result.error failure s = .ok a s' ↔ _
    simp

/-! ## Printing -/

/-- The output with more lines printed. -/
def Output.printAll (output : Output) (lines : List String) : Output :=
  lines.foldl Output.print output

theorem Output.toList_stdout_printAll (output : Output) (lines : List String) :
    (output.printAll lines).stdout.toList = output.stdout.toList ++ lines := by
  induction lines generalizing output with
  | nil => exact (List.append_nil _).symm
  | cons line rest ih =>
    show ((output.print line).printAll rest).stdout.toList = _
    rw [ih]
    simp [print]

theorem Output.stderr_printAll (output : Output) (lines : List String) :
    (output.printAll lines).stderr = output.stderr := by
  induction lines generalizing output with
  | nil => rfl
  | cons line rest ih => exact ih (output.print line)

theorem forM_print (lines : List String) (s : Session Output) :
    lines.forM print s = .ok () { s with seen := s.seen.printAll lines } := by
  induction lines generalizing s with
  | nil => rfl
  | cons line rest ih => exact ih { s with seen := s.seen.print line }

/-! ## A command that runs its program -/

namespace Options

variable {options : Options} {files : FileSystem} {s s' : Session Output} {exit : Nat}

/-- The session in which the run begins, after the processor `cpu` has been loaded. -/
def ready (options : Options) (program : List UInt8) (source : Source) (cpu : Processor)
    (output : Output) : Session Output where
  cpu := cpu
  seen := options.engine.noted [.obtained program.length source options.origin,
    .reset options.origin, .loaded program.length options.origin] output

theorem runLoaded_eq_ok_iff :
    options.runLoaded s = .ok exit s' ↔
      ∃ outcome values t, options.engine.run options.origin options.limit s = .ok outcome t ∧
        options.shown.mapM (valueShown t.cpu) = .ok values ∧
        s' = ⟨t.cpu, t.seen.printAll (options.summary t.cpu outcome values)⟩ ∧
        exit = if outcome.isHalted then 0 else 2 := by
  unfold runLoaded
  rw [bind_eq_ok_iff]
  refine exists_congr fun outcome => ?_
  constructor
  · rintro ⟨t, hrun, h⟩
    obtain ⟨u, u', hget, h⟩ := bind_eq_ok_iff.1 h
    cases hget
    obtain ⟨values, u, hshown, h⟩ := bind_eq_ok_iff.1 h
    obtain ⟨hvalues, rfl⟩ := ofExcept_eq_ok_iff.1 hshown
    obtain ⟨_, u, hprint, h⟩ := bind_eq_ok_iff.1 h
    rw [forM_print] at hprint
    cases hprint
    cases h
    exact ⟨values, t, adaptExcept_eq_ok_iff.1 hrun, hvalues, rfl, rfl⟩
  · rintro ⟨values, t, hrun, hvalues, rfl, rfl⟩
    refine ⟨t, adaptExcept_eq_ok_iff.2 hrun, bind_eq_ok_iff.2 ⟨t, t, rfl, ?_⟩⟩
    refine bind_eq_ok_iff.2 ⟨values, t, ofExcept_eq_ok_iff.2 ⟨hvalues, rfl⟩, ?_⟩
    exact bind_eq_ok_iff.2 ⟨(), _, forM_print _ t, rfl⟩

/-- A command that is to do more than list the program succeeds if the program can be obtained and
loaded, run without a fault, and reported. -/
theorem command_eq_ok_iff (hlist : options.list = false) :
    options.command files s = .ok exit s' ↔
      ∃ program source cpu outcome values t,
        loadProgram files options.program options.asm = .ok (program, source) ∧
          (Processor.powerUp options.origin).load program options.origin = .ok cpu ∧
          options.engine.run options.origin options.limit
            (options.ready program source cpu s.seen) = .ok outcome t ∧
          options.shown.mapM (valueShown t.cpu) = .ok values ∧
          s' = ⟨t.cpu, t.seen.printAll (options.summary t.cpu outcome values)⟩ ∧
          exit = if outcome.isHalted then 0 else 2 := by
  -- the records before the load, and the processor that is reset
  have hload : ∀ (program : List UInt8) (source : Source) (u : Session Output),
      options.engine.load program options.origin
          ⟨.powerUp options.origin, options.engine.log (.reset options.origin)
            (options.engine.log (.obtained program.length source options.origin) s.seen)⟩ =
        .ok () u ↔
      ∃ cpu, (Processor.powerUp options.origin).load program options.origin = .ok cpu ∧
        u = options.ready program source cpu s.seen := by
    intro program source u
    rw [Engine.load_apply]
    cases (Processor.powerUp options.origin).load program options.origin with
    | error cause => simp
    | ok cpu =>
      simp only [EStateM.Result.ok.injEq, true_and, Except.ok.injEq, exists_eq_left']
      exact eq_comm
  unfold command
  constructor
  · intro h
    obtain ⟨⟨program, source⟩, u, hgiven, h⟩ := bind_eq_ok_iff.1 h
    obtain ⟨hloaded, rfl⟩ := ofExcept_eq_ok_iff.1 hgiven
    obtain ⟨_, u, hrecord, h⟩ := bind_eq_ok_iff.1 h
    cases adaptExcept_eq_ok_iff.1 hrecord
    obtain ⟨_, u, hreset, h⟩ := bind_eq_ok_iff.1 h
    cases adaptExcept_eq_ok_iff.1 hreset
    obtain ⟨_, u, hplaced, h⟩ := bind_eq_ok_iff.1 h
    obtain ⟨cpu, hcpu, rfl⟩ := (hload program source u).1 (adaptExcept_eq_ok_iff.1 hplaced)
    rw [hlist, if_neg Bool.false_ne_true] at h
    obtain ⟨outcome, values, t, hrest⟩ := runLoaded_eq_ok_iff.1 h
    exact ⟨program, source, cpu, outcome, values, t, mapError_eq_ok_iff.1 hloaded, hcpu, hrest⟩
  · rintro ⟨program, source, cpu, outcome, values, t, hloaded, hcpu, hrest⟩
    have hplaced := (hload program source _).2 ⟨cpu, hcpu, rfl⟩
    refine bind_eq_ok_iff.2 ⟨(program, source), s,
      ofExcept_eq_ok_iff.2 ⟨mapError_eq_ok_iff.2 hloaded, rfl⟩, ?_⟩
    refine bind_eq_ok_iff.2 ⟨(), _, adaptExcept_eq_ok_iff.2 rfl, ?_⟩
    refine bind_eq_ok_iff.2 ⟨(), _, adaptExcept_eq_ok_iff.2 rfl, ?_⟩
    refine bind_eq_ok_iff.2 ⟨(), _, adaptExcept_eq_ok_iff.2 hplaced, ?_⟩
    rw [hlist, if_neg Bool.false_ne_true]
    exact runLoaded_eq_ok_iff.2 ⟨outcome, values, t, hrest⟩

end Options

end Cpu6502.CommandLine
