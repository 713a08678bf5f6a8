import Cpu6502.Engine.Step

/-!
# Bounded runs

A run sets the program counter to its origin and executes instructions until a BRK, a fault or the
limit. A processor that is already halted is left as it is.

The recursion of a run is bounded by a number of instructions that suffices: the limit itself if it
counts steps, and the ticks that are left if it counts cycles, since every instruction costs some.
-/

namespace Cpu6502

variable {σ : Type}

namespace Limit

/-- A number of instructions after which a run is certain to have reached the limit, if it begins
with the given tick count. -/
def allowance (limit : Limit) (ticks : Ticks) : Nat :=
  match limit with
  | .steps count => count
  | .cycles count => count - ticks.count.toNat

end Limit

namespace Engine

/-- Ends a run at its limit. -/
def stop (engine : Engine σ) (steps : Nat) : Watched σ RunOutcome := do
  let outcome : RunOutcome := ⟨.limitReached, steps, (← Watched.cpu).cycles⟩
  engine.record (.limitReached outcome)
  return outcome

/-- Continues a run that has executed `steps` instructions by at most `allowance` more. -/
def continueRun (engine : Engine σ) (limit : Limit) :
    (allowance steps : Nat) → Watched σ RunOutcome
  | 0, steps => engine.stop steps
  | allowance + 1, steps => do
    if limit.isReached steps (← Watched.cpu).cycles then
      engine.stop steps
    else
      match ← engine.step with
      | .halted => return ⟨.halted, steps + 1, (← Watched.cpu).cycles⟩
      | .executed _ => engine.continueRun limit allowance (steps + 1)

/-- Runs from `origin` until a BRK or the limit. -/
def run (engine : Engine σ) (origin : UInt16) (limit : Limit) : Watched σ RunOutcome := do
  if (← Watched.cpu).isHalted then
    return ⟨.halted, 0, (← Watched.cpu).cycles⟩
  modify fun session => { session with cpu := session.cpu.jump origin }
  engine.record (.runStarted origin limit)
  engine.continueRun limit (limit.allowance (← Watched.cpu).cycles) 0

end Engine

end Cpu6502
