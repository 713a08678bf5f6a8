import Cpu6502.Instruction.Semantics
import Cpu6502.Proofs.Words

/-! # Sums and comparisons as numbers

The arithmetic instructions work on bytes, with a sum of sixteen bits and masks for single bits.
Here is what they compute, in numbers:

* `Processor.addWithCarry_sum`: an addition is exact over the accumulator and the carry.
* `Processor.addWithCarry_v`: it sets V when the signed sum has no signed byte.
* `Processor.compare_c`, `Processor.compare_z`: a comparison orders the unsigned values.
-/

namespace Cpu6502

/-! ## The flags of a result -/

namespace Flags

theorem withResult_n (f : Flags) (result : UInt8) :
    (f.withResult result).n = result.toNat.testBit 7 :=
  decide_and_0x80 result

theorem withResult_z (f : Flags) (result : UInt8) :
    (f.withResult result).z = decide (result = 0) :=
  rfl

end Flags

namespace Processor

/-! ## Addition -/

/-- The sum that an addition forms before it is cut down to a byte. -/
theorem toNat_sum (a m : UInt8) (c : Bool) :
    (a.toUInt16 + m.toUInt16 + (if c then 1 else 0)).toNat = a.toNat + m.toNat + c.toNat := by
  have ha := a.toNat_lt
  have hm := m.toNat_lt
  cases c with
  | false =>
    simp only [Bool.false_eq_true, if_false, UInt16.toNat_add, UInt8.toNat_toUInt16,
      UInt16.toNat_zero, Bool.toNat_false]
    omega
  | true =>
    simp only [if_true, UInt16.toNat_add, UInt8.toNat_toUInt16, UInt16.toNat_one,
      Bool.toNat_true]
    omega

theorem addWithCarry_a (cpu : Processor) (m : UInt8) :
    (cpu.addWithCarry m).registers.a.toNat =
      (cpu.registers.a.toNat + m.toNat + cpu.flags.c.toNat) % 256 := by
  unfold addWithCarry
  simp only [UInt16.toNat_toUInt8, toNat_sum]

theorem addWithCarry_c (cpu : Processor) (m : UInt8) :
    (cpu.addWithCarry m).flags.c =
      decide (256 ≤ cpu.registers.a.toNat + m.toNat + cpu.flags.c.toNat) := by
  unfold addWithCarry Flags.withResult
  simp only [UInt16.lt_iff_toNat_lt, toNat_sum]
  rfl

/-- The accumulator and the carry hold the whole sum. -/
theorem addWithCarry_sum (cpu : Processor) (m : UInt8) :
    (cpu.addWithCarry m).registers.a.toNat + 256 * (cpu.addWithCarry m).flags.c.toNat =
      cpu.registers.a.toNat + m.toNat + cpu.flags.c.toNat := by
  have ha := cpu.registers.a.toNat_lt
  have hm := m.toNat_lt
  have hc : cpu.flags.c.toNat ≤ 1 := Bool.toNat_le cpu.flags.c
  rw [addWithCarry_a, addWithCarry_c]
  by_cases hcarry : 256 ≤ cpu.registers.a.toNat + m.toNat + cpu.flags.c.toNat
  · rw [decide_eq_true hcarry, Bool.toNat_true]
    omega
  · rw [decide_eq_false hcarry, Bool.toNat_false]
    omega

/-- V says that the sum of the signed values is no signed byte. -/
theorem addWithCarry_v (cpu : Processor) (m : UInt8) :
    (cpu.addWithCarry m).flags.v =
      let sum := cpu.registers.a.toInt8.toInt + m.toInt8.toInt + cpu.flags.c.toNat
      decide (¬ (-128 ≤ sum ∧ sum ≤ 127)) := by
  have ha := cpu.registers.a.toNat_lt
  have hm := m.toNat_lt
  have hc : cpu.flags.c.toNat ≤ 1 := Bool.toNat_le cpu.flags.c
  have hr := cpu.addWithCarry_a m
  -- the mask looks at bit 7 of each summand and of the result
  have hbits : (cpu.addWithCarry m).flags.v =
      ((cpu.registers.a ^^^ (cpu.addWithCarry m).registers.a) &&&
        (m ^^^ (cpu.addWithCarry m).registers.a)).toNat.testBit 7 :=
    decide_and_0x80 _
  rw [hbits]
  simp only [UInt8.toNat_and, UInt8.toNat_xor, Nat.testBit_and, Nat.testBit_xor, testBit_seven,
    toInt_toInt8]
  rw [hr]
  -- what is left compares the signs of two summands below 256 and of their sum
  generalize cpu.registers.a.toNat = a at ha ⊢
  generalize m.toNat = m at hm ⊢
  generalize cpu.flags.c.toNat = c at hc ⊢
  rw [Bool.eq_iff_iff]
  simp only [Bool.and_eq_true, bne_iff_ne, ne_eq, decide_eq_decide, decide_eq_true_eq]
  split <;> split <;> omega

/-! ## Comparison -/

theorem compare_c (cpu : Processor) (m : UInt8) :
    (cpu.compare m).flags.c = decide (m.toNat ≤ cpu.registers.a.toNat) :=
  rfl

theorem compare_z (cpu : Processor) (m : UInt8) :
    (cpu.compare m).flags.z = decide (cpu.registers.a = m) := by
  have hzero : cpu.registers.a - m = 0 ↔ cpu.registers.a = m := by
    rw [UInt8.sub_eq_iff_eq_add, UInt8.zero_add]
  unfold compare
  simp only [Flags.withResult_z, hzero]

theorem compare_n (cpu : Processor) (m : UInt8) :
    (cpu.compare m).flags.n =
      (((cpu.registers.a.toNat : Int) - m.toNat) % 256).toNat.testBit 7 := by
  have ha := cpu.registers.a.toNat_lt
  have hm := m.toNat_lt
  unfold compare
  simp only [Flags.withResult_n, UInt8.toNat_sub]
  congr 1
  omega

end Processor

end Cpu6502
