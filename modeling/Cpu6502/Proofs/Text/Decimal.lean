import Cpu6502.Text.Number

/-! # Decimal numbers

A number is written with its decimal digits. It is read back from them if it is within the bound, and
otherwise found to be too large (`Number.readDigits_toDigits`).
-/

namespace Cpu6502

theorem exists_digit_of_mem_toDigits {base n : Nat} (hbase : 1 < base) {c : Char}
    (h : c ∈ Nat.toDigits base n) : ∃ d < base, c = d.digitChar := by
  induction n using Nat.strongRecOn with
  | ind n ih =>
    rw [Nat.toDigits_eq_if hbase] at h
    split at h
    · next hn =>
      rw [List.mem_singleton] at h
      exact ⟨n, hn, h⟩
    · next hn =>
      rcases List.mem_append.1 h with hfront | hlast
      · exact ih (n / base) (Nat.div_lt_self (by omega) hbase) hfront
      · exact ⟨n % base, Nat.mod_lt n (by omega), List.mem_singleton.1 hlast⟩

/-- A number begins with a digit, which is not zero unless the number is. -/
theorem exists_toDigits_eq_cons (n : Nat) :
    ∃ c digits, Nat.toDigits 10 n = c :: digits ∧ c.isDigit ∧ (0 < n → c ≠ '0') := by
  induction n using Nat.strongRecOn with
  | ind n ih =>
    by_cases hn : n < 10
    · refine ⟨n.digitChar, [], Nat.toDigits_of_lt_base hn, ?_, ?_⟩
      · rw [Nat.isDigit_digitChar]
        exact decide_eq_true hn
      · intro hpos hzero
        rw [Nat.digitChar_eq_zero] at hzero
        omega
    · obtain ⟨c, digits, hdigits, hc, hzero⟩ := ih (n / 10) (by omega)
      refine ⟨c, digits ++ [(n % 10).digitChar], ?_, hc, fun _ => hzero (by omega)⟩
      rw [Nat.toDigits_of_base_le (by decide) (by omega), hdigits, List.cons_append]

namespace Number

theorem digit?_digitChar {d : Nat} (h : d < 10) : digit? 10 d.digitChar = some d := by
  have hall : ∀ d : Fin 10, digit? 10 d.val.digitChar = some d.val := by decide
  exact hall ⟨d, h⟩

/-- The digits of a number lead to its value, unless they lead past the bound. -/
theorem readDigits_toDigits (bound n : Nat) (rest : List Char) :
    readDigits 10 bound 0 (Nat.toDigits 10 n ++ rest) =
      if bound < n then .error .tooLarge else readDigits 10 bound n rest := by
  induction n using Nat.strongRecOn generalizing rest with
  | ind n ih =>
    rw [Nat.toDigits_eq_if (by decide)]
    split
    · next hn =>
      rw [List.singleton_append, readDigits, digit?_digitChar hn]
      dsimp only
      rw [Nat.zero_mul, Nat.zero_add]
    · next hn =>
      have hvalue : n / 10 * 10 + n % 10 = n := by omega
      rw [List.append_assoc, ih (n / 10) (by omega), List.singleton_append, readDigits,
        digit?_digitChar (Nat.mod_lt n (by decide))]
      dsimp only
      rw [hvalue]
      by_cases hfront : bound < n / 10
      · rw [if_pos hfront, if_pos (by omega)]
      · rw [if_neg hfront]

theorem readDigits_toDigits_of_le {bound n : Nat} (h : n ≤ bound) :
    readDigits 10 bound 0 (Nat.toDigits 10 n) = .ok n := by
  have hread := readDigits_toDigits bound n []
  rw [List.append_nil, if_neg (Nat.not_lt.2 h), readDigits] at hread
  exact hread

theorem readDigits_toDigits_of_lt {bound n : Nat} (h : bound < n) :
    readDigits 10 bound 0 (Nat.toDigits 10 n) = .error .tooLarge := by
  have hread := readDigits_toDigits bound n []
  rw [List.append_nil, if_pos h] at hread
  exact hread

theorem read_toDigits_of_le {bound n : Nat} (h : n ≤ bound) :
    read 10 bound (Nat.toDigits 10 n) = .ok n := by
  have hread := readDigits_toDigits_of_le h
  obtain ⟨c, digits, hdigits, hc, -⟩ := exists_toDigits_eq_cons n
  rw [hdigits] at hread ⊢
  -- the first digit is no sign
  have hplus : c ≠ '+' := by
    rintro rfl
    exact absurd hc (by decide)
  rw [read]
  · exact hread
  · exact nofun
  · exact fun h => hplus (List.cons.inj h).1
  · exact fun rest h => hplus (List.cons.inj h).1

end Number

end Cpu6502
