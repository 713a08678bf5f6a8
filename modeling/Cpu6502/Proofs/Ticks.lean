import Cpu6502.Processor.Ticks
import Mathlib.Algebra.Ring.Nat
import Mathlib.Data.List.Basic

/-! # Sums of ticks

Numbers are added to a tick count one after another, each of them in 64 bits or in 32. What comes of
it is decided by their exact sum alone, so neither the order of the numbers nor their widths matter.

* `Ticks.sum?_eq_some_iff`: a total that is reached is the exact sum.
* `Ticks.getElem?_totals`: the totals on the way are the sums of the first numbers, and they end
  where a sum does not fit.
-/

namespace Cpu6502

/-- A number of cycles to be added, in either width. -/
inductive Addend where
  | wide (count : UInt64)
  | narrow (count : UInt32)
  deriving DecidableEq, Repr

/-- The number to be added. -/
def Addend.toNat : Addend → Nat
  | wide count => count.toNat
  | narrow count => count.toNat

namespace Ticks

/-- The sum with a number of either width, unless it exceeds 64 bits. -/
def plus? (t : Ticks) : Addend → Option Ticks
  | .wide count => t.add? count
  | .narrow count => t.addCost? count

/-- The sum with several numbers that are added one after another, unless one of the sums exceeds 64
bits. -/
def sum? (t : Ticks) : List Addend → Option Ticks
  | [] => some t
  | addend :: addends => do (← t.plus? addend).sum? addends

/-- The totals after each of several numbers, up to the first sum that exceeds 64 bits. -/
def totals (t : Ticks) : List Addend → List Ticks
  | [] => []
  | addend :: addends =>
    match t.plus? addend with
    | some u => u :: u.totals addends
    | none => []

/-- The exact sum, however large. -/
def exactSum (t : Ticks) (addends : List Addend) : Nat :=
  t.count.toNat + (addends.map Addend.toNat).sum

variable {t u : Ticks} {addend : Addend} {addends addends' : List Addend}

@[simp] theorem exactSum_nil (t : Ticks) : t.exactSum [] = t.count.toNat := rfl

theorem exactSum_cons (t : Ticks) (addend : Addend) (addends : List Addend) :
    t.exactSum (addend :: addends) =
      t.count.toNat + addend.toNat + (addends.map Addend.toNat).sum := by
  unfold exactSum
  rw [List.map_cons, List.sum_cons, Nat.add_assoc]

theorem exactSum_take_le (t : Ticks) (addends : List Addend) {index index' : Nat}
    (h : index ≤ index') : t.exactSum (addends.take index) ≤ t.exactSum (addends.take index') := by
  -- the later sum has the numbers of the earlier one, and others after them
  have hparts := List.take_append_drop index (addends.take index')
  rw [List.take_take, Nat.min_eq_left h] at hparts
  unfold exactSum
  rw [← hparts, List.map_append, List.sum_append]
  omega

/-! ## What is added up -/

theorem plus?_eq_some_iff : t.plus? addend = some u ↔ u.count.toNat = t.count.toNat + addend.toNat := by
  cases addend with
  | wide count => exact add?_eq_some_iff
  | narrow count =>
    have hwidened := add?_eq_some_iff (t := t) (u := u) (n := count.toUInt64)
    rwa [UInt32.toNat_toUInt64] at hwidened

theorem exists_count_eq {n : Nat} (h : n < UInt64.size) : ∃ t : Ticks, t.count.toNat = n :=
  ⟨⟨UInt64.ofNat n⟩, UInt64.toNat_ofNat_of_lt' h⟩

theorem sum?_eq_some_iff : t.sum? addends = some u ↔ u.count.toNat = t.exactSum addends := by
  induction addends generalizing t with
  | nil =>
    unfold sum?
    rw [Option.some.injEq, exactSum_nil, eq_comm]
    constructor
    · rintro rfl
      rfl
    · intro h
      cases t
      cases u
      exact congrArg _ (UInt64.toNat_inj.1 h)
  | cons addend addends ih =>
    rw [exactSum_cons]
    unfold sum?
    rw [Option.bind_eq_bind, Option.bind_eq_some_iff]
    constructor
    · rintro ⟨v, hplus, hrest⟩
      rw [plus?_eq_some_iff] at hplus
      rw [ih.1 hrest, exactSum, hplus]
    · intro h
      -- a sum that fits leaves room for each of its parts
      have hlt : u.count.toNat < UInt64.size := u.count.toNat_lt
      obtain ⟨v, hv⟩ := exists_count_eq (n := t.count.toNat + addend.toNat) (by omega)
      refine ⟨v, plus?_eq_some_iff.2 hv, ih.2 ?_⟩
      rw [h, exactSum, hv]

theorem isSome_sum?_iff : (t.sum? addends).isSome ↔ t.exactSum addends < UInt64.size := by
  rw [Option.isSome_iff_exists]
  constructor
  · rintro ⟨u, hu⟩
    rw [← sum?_eq_some_iff.1 hu]
    exact u.count.toNat_lt
  · intro h
    obtain ⟨u, hu⟩ := exists_count_eq h
    exact ⟨u, sum?_eq_some_iff.2 hu⟩

theorem sum?_eq_none_iff : t.sum? addends = none ↔ UInt64.size ≤ t.exactSum addends := by
  rw [← Option.not_isSome_iff_eq_none, isSome_sum?_iff, Nat.not_lt]

/-- Numbers with the same exact sum come to the same. -/
theorem sum?_congr (h : t.exactSum addends = t.exactSum addends') :
    t.sum? addends = t.sum? addends' := by
  apply Option.ext
  intro u
  rw [sum?_eq_some_iff, sum?_eq_some_iff, h]

/-! ## The totals on the way -/

/-- The totals are the sums of the first numbers. -/
theorem getElem?_totals (t : Ticks) {index : Nat} (h : index ≤ addends.length) :
    (t :: t.totals addends)[index]? = t.sum? (addends.take index) := by
  induction addends generalizing t index with
  | nil =>
    cases Nat.le_zero.1 h
    rfl
  | cons addend addends ih =>
    cases index with
    | zero => rfl
    | succ index =>
      rw [List.getElem?_cons_succ, List.take_succ_cons]
      unfold totals sum?
      cases t.plus? addend with
      | none => rfl
      | some u => exact ih u (Nat.le_of_succ_le_succ h)

theorem length_totals_le (t : Ticks) (addends : List Addend) :
    (t.totals addends).length ≤ addends.length := by
  induction addends generalizing t with
  | nil => exact Nat.le_refl _
  | cons addend addends ih =>
    unfold totals
    cases t.plus? addend with
    | none => exact Nat.zero_le _
    | some u => exact Nat.succ_le_succ (ih u)

theorem toNat_of_getElem?_totals {index : Nat} (h : (t :: t.totals addends)[index]? = some u) :
    u.count.toNat = t.exactSum (addends.take index) := by
  have hindex := (List.getElem?_eq_some_iff.1 h).1
  have hlength := t.length_totals_le addends
  rw [List.length_cons] at hindex
  rw [getElem?_totals t (by omega)] at h
  exact sum?_eq_some_iff.1 h

/-- If a sum is refused, then the first that does not fit is, and the totals are those before it. -/
theorem refused_of_sum?_eq_none (h : t.sum? addends = none) :
    let index := (t.totals addends).length
    index < addends.length ∧
      (∀ earlier ≤ index, t.exactSum (addends.take earlier) < UInt64.size) ∧
      UInt64.size ≤ t.exactSum (addends.take (index + 1)) := by
  intro index
  have hle : index ≤ addends.length := t.length_totals_le addends
  have hlast : (t.sum? (addends.take index)).isSome := by
    rw [← getElem?_totals t hle, List.getElem?_eq_getElem (Nat.lt_succ_self _)]
    rfl
  have hlt : index < addends.length := by
    refine Nat.lt_of_le_of_ne hle ?_
    intro hall
    rw [hall, List.take_length, h] at hlast
    cases hlast
  refine ⟨hlt, ?_, ?_⟩
  · intro earlier hearlier
    exact Nat.lt_of_le_of_lt (t.exactSum_take_le addends hearlier) (isSome_sum?_iff.1 hlast)
  · rw [← sum?_eq_none_iff, ← getElem?_totals t hlt, List.getElem?_eq_none_iff]
    exact Nat.le_refl _

theorem isLE_compare : (compare t u).isLE ↔ t.count.toNat ≤ u.count.toNat := by
  show (compare t.count u.count).isLE ↔ _
  rw [Std.isLE_compare, UInt64.le_iff_toNat_le]

theorem pairwise_totals (t : Ticks) (addends : List Addend) :
    (t :: t.totals addends).Pairwise fun u v => (compare u v).isLE := by
  rw [List.pairwise_iff_getElem]
  intro index index' hindex hindex' hlt
  rw [isLE_compare, toNat_of_getElem?_totals (List.getElem?_eq_getElem hindex),
    toNat_of_getElem?_totals (List.getElem?_eq_getElem hindex')]
  exact t.exactSum_take_le addends (Nat.le_of_lt hlt)

/-- Sums of ticks are exact or refused. Numbers of either width are added one after another to any
tick count: this succeeds if and only if the exact sum fits into 64 bits, and then comes to that sum,
for the same numbers in any other order and in other widths as well. On the way each total is the
exact sum so far, and no total is less than one before it. If a sum is refused, it is at the first
place where the exact sum does not fit. -/
theorem sums_exact (t : Ticks) (addends : List Addend) :
    ((t.sum? addends).isSome ↔ t.exactSum addends < UInt64.size) ∧
      (∀ u, t.sum? addends = some u ↔ u.count.toNat = t.exactSum addends) ∧
      (∀ addends', (addends'.map Addend.toNat).Perm (addends.map Addend.toNat) →
        t.sum? addends' = t.sum? addends) ∧
      (∀ index ≤ addends.length,
        (t :: t.totals addends)[index]? = t.sum? (addends.take index)) ∧
      (∀ index u, (t :: t.totals addends)[index]? = some u →
        u.count.toNat = t.exactSum (addends.take index)) ∧
      (t :: t.totals addends).Pairwise (fun u v => (compare u v).isLE) ∧
      (t.sum? addends = none →
        let index := (t.totals addends).length
        index < addends.length ∧
          (∀ earlier ≤ index, t.exactSum (addends.take earlier) < UInt64.size) ∧
          UInt64.size ≤ t.exactSum (addends.take (index + 1))) := by
  refine ⟨isSome_sum?_iff, fun u => sum?_eq_some_iff, ?_, fun index h => getElem?_totals t h,
    fun index u => toNat_of_getElem?_totals, t.pairwise_totals addends, refused_of_sum?_eq_none⟩
  intro addends' hperm
  apply sum?_congr
  unfold exactSum
  rw [hperm.sum_nat]

/-- Four numbers of which the third does not fit any more. -/
theorem sums_exact_of_overflow :
    let t : Ticks := ⟨0xFFFFFFFFFFFFFFF0⟩
    let addends : List Addend := [.narrow 7, .wide 8, .wide 1, .narrow 0]
    t.totals addends = [⟨0xFFFFFFFFFFFFFFF7⟩, ⟨0xFFFFFFFFFFFFFFFF⟩] ∧ t.sum? addends = none ∧
      t.sum? [.wide 7, .wide 0, .narrow 8, .narrow 1] = none ∧
      (∀ earlier ≤ 2, t.exactSum (addends.take earlier) < UInt64.size) ∧
      UInt64.size ≤ t.exactSum (addends.take 3) := by
  intro t addends
  have htotals : t.totals addends = [⟨0xFFFFFFFFFFFFFFF7⟩, ⟨0xFFFFFFFFFFFFFFFF⟩] := by decide
  have hrefused : t.sum? addends = none := by decide
  obtain ⟨-, -, hperm, -, -, -, hfails⟩ := sums_exact t addends
  obtain ⟨-, hbefore, hthere⟩ := hfails hrefused
  refine ⟨htotals, hrefused, ?_, ?_, ?_⟩
  · rw [← hrefused]
    exact hperm _ (by decide)
  · rwa [htotals] at hbefore
  · rwa [htotals] at hthere

end Ticks

end Cpu6502
