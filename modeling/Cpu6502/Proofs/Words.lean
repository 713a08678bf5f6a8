import Cpu6502.Instruction.Operand

/-! # Bytes and addresses as numbers

The processor computes with words of eight and sixteen bits, and what it computes is stated with
numbers. These lemmas lead from the one to the other: the top bit of a byte, its signed value, and
the sum with which a branch finds its target.
-/

namespace Cpu6502

/-! ## Bytes -/

/-- The mask for the top bit of a byte tests bit 7. -/
theorem decide_and_0x80 (x : UInt8) : decide (x &&& 0x80 ≠ 0) = x.toNat.testBit 7 := by
  -- no law relates the mask to the bit, but there are only 256 bytes
  have hall : ∀ n : Fin 256, decide (UInt8.ofNat n &&& 0x80 ≠ 0) = (n : Nat).testBit 7 := by
    decide +kernel
  have hx := hall ⟨x.toNat, x.toNat_lt⟩
  simpa using hx

theorem testBit_seven (x : UInt8) : x.toNat.testBit 7 = decide (128 ≤ x.toNat) := by
  have hx := x.toNat_lt
  rw [Nat.testBit_eq_decide_div_mod_eq]
  congr 1
  apply propext
  omega

/-- The signed value of a byte in terms of the unsigned one. -/
theorem toInt_toInt8 (x : UInt8) :
    x.toInt8.toInt = if x.toNat < 128 then (x.toNat : Int) else x.toNat - 256 := by
  have hx := x.toNat_lt
  have hbits : x.toInt8.toInt = x.toBitVec.toInt := rfl
  rw [hbits, BitVec.toInt_eq_toNat_cond]
  simp only [UInt8.toNat_toBitVec]
  split <;> split <;> omega

/-! ## Addresses -/

theorem toNat_ofInt (x : Int) : ((UInt16.ofInt x).toNat : Int) = x % 65536 := by
  simp only [UInt16.ofInt, UInt16.toNat_ofNat']
  omega

theorem pageCrossed_eq (a b : UInt16) :
    pageCrossed a b = decide (a.toNat / 256 ≠ b.toNat / 256) :=
  rfl

theorem ofInt_natCast (n : Nat) : UInt16.ofInt n = UInt16.ofNat n := by
  apply UInt16.toNat_inj.1
  have hvalue := toNat_ofInt n
  rw [UInt16.toNat_ofNat']
  omega

/-- A branch adds its distance to the address of the next instruction. -/
theorem branchTarget_eq_add (next : UInt16) (distance : Int8) :
    branchTarget next distance = next + UInt16.ofInt distance.toInt := by
  -- the sum may be taken modulo 65536 before or after the distance is added
  have hnext : UInt16.ofInt next.toNat = next := by
    rw [ofInt_natCast, UInt16.ofNat_toNat]
  unfold branchTarget
  rw [UInt16.ofInt_add, hnext]

theorem toNat_branchTarget (next : UInt16) (distance : Int8) :
    ((branchTarget next distance).toNat : Int) = (next.toNat + distance.toInt) % 65536 :=
  toNat_ofInt _

end Cpu6502
