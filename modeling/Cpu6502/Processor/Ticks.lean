/-!
# Ticks

A count of clock cycles since the last reset, kept in 64 bits. A sum that does not fit is refused,
so a count never wraps.

* `Ticks.add?_eq_some_iff`: a sum exists exactly when it fits, and then it is exact.
-/

namespace Cpu6502

/-- A number of clock cycles. -/
structure Ticks where
  count : UInt64
  deriving DecidableEq, Repr, Inhabited

namespace Ticks

/-- No cycles. -/
def zero : Ticks := ⟨0⟩

/-- Ticks are ordered by their count. -/
instance : Ord Ticks := ⟨fun s t => compare s.count t.count⟩

/-- The sum, unless it exceeds 64 bits. -/
def add? (t : Ticks) (n : UInt64) : Option Ticks :=
  if t.count.toNat + n.toNat < UInt64.size then some ⟨t.count + n⟩ else none

/-- The sum with a 32-bit number of cycles. -/
def addCost? (t : Ticks) (n : UInt32) : Option Ticks :=
  t.add? n.toUInt64

/-- The form in which a count is shown for inspection. -/
def inspect (t : Ticks) : String :=
  s!"Ticks({t.count})"

theorem add?_eq_some_iff {t u : Ticks} {n : UInt64} :
    t.add? n = some u ↔ u.count.toNat = t.count.toNat + n.toNat := by
  have hu : u.count.toNat < UInt64.size := u.count.toNat_lt
  unfold add?
  split
  · rename_i h
    have hsum : (t.count + n).toNat = t.count.toNat + n.toNat := by
      rw [UInt64.toNat_add, Nat.mod_eq_of_lt h]
    constructor
    · rintro ⟨⟩
      exact hsum
    · intro hu'
      have : t.count + n = u.count := UInt64.toNat_inj.1 (hsum.trans hu'.symm)
      simp [this]
  · simp only [reduceCtorEq, false_iff]
    omega

end Ticks

end Cpu6502
