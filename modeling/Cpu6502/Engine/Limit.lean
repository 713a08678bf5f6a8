import Cpu6502.Processor.Ticks

/-!
# Bounded runs: limits and outcomes

A run ends at a BRK or at its limit, whichever comes first. The limit is tested before each
instruction, so a run that is limited by cycles may overshoot with its last instruction.
-/

namespace Cpu6502

/-- When to end a run that does not halt. -/
inductive Limit where
  /-- After this many instructions. -/
  | steps (count : Nat)
  /-- As soon as the tick count is at least this. -/
  | cycles (count : Nat)
  deriving DecidableEq, Repr

namespace Limit

/-- Holds when a run that has executed `steps` instructions may execute no other one. -/
def isReached (limit : Limit) (steps : Nat) (ticks : Ticks) : Bool :=
  match limit with
  | .steps count => count ≤ steps
  | .cycles count => count ≤ ticks.count.toNat

/-- The form in which a limit is shown for inspection. -/
def inspect : Limit → String
  | .steps count => s!"Steps({count})"
  | .cycles count => s!"Cycles({count})"

end Limit

/-- Why a run ended. -/
inductive Ending where
  /-- A BRK was executed. -/
  | halted
  /-- The limit came first. -/
  | limitReached
  deriving DecidableEq, Repr

/-- How a run ended. -/
structure RunOutcome where
  ending : Ending
  /-- The number of instructions that the run executed. -/
  steps : Nat
  /-- The tick count at the end. -/
  cycles : Ticks
  deriving DecidableEq, Repr

/-- Holds of a run that ended at a BRK. -/
def RunOutcome.isHalted (outcome : RunOutcome) : Bool :=
  outcome.ending = .halted

/-- The steps and cycles of a run in words. -/
def RunOutcome.extent (outcome : RunOutcome) : String :=
  s!"{outcome.steps} steps, {outcome.cycles.count} cycles"

end Cpu6502
