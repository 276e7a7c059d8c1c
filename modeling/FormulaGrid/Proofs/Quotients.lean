import FormulaGrid.Proofs.Success
import FormulaGrid.Proofs.Wrapping

/-!
# Proofs.Quotients — division by several numbers

To divide by one number after the other is to divide once by their exact product, also where the product
does not fit a word (`foldlM_ratio_eq_ok`).  A zero among the divisors is the only error
(`foldlM_ratio_eq_error_iff`), and the smallest number over -1 is the only quotient that is too large
(`toInt_div_of_regular`); so the order of the divisors does not matter to other dividends (`quotient_exact`).
-/

namespace FormulaGrid

/-- Quotients cut off toward zero are not cut off twice. -/
theorem tdiv_tdiv (x y z : Int) : (x.tdiv y).tdiv z = x.tdiv (y * z) := by
  have hnat (i j k : Nat) : ((i : Int).tdiv j).tdiv k = (i : Int).tdiv (j * k) := by
    rw [← Int.ofNat_tdiv, ← Int.ofNat_tdiv, ← Int.natCast_mul, ← Int.ofNat_tdiv, Nat.div_div_eq_div_mul]
  -- the signs of the three numbers go to the front of both quotients
  obtain ⟨i, rfl | rfl⟩ := x.eq_nat_or_neg <;> obtain ⟨j, rfl | rfl⟩ := y.eq_nat_or_neg <;>
    obtain ⟨k, rfl | rfl⟩ := z.eq_nat_or_neg <;>
    simp only [Int.neg_tdiv, Int.tdiv_neg, Int.neg_mul, Int.mul_neg, Int.neg_neg, hnat]

theorem natAbs_tdiv_le_half {x y : Int} (hone : y ≠ 1) (hneg : y ≠ -1) :
    (x.tdiv y).natAbs ≤ x.natAbs / 2 := by
  rw [Int.natAbs_tdiv]
  show x.natAbs / y.natAbs ≤ x.natAbs / 2
  rcases Nat.eq_zero_or_pos y.natAbs with h0 | hpos
  · rw [h0, Nat.div_zero]
    exact Nat.zero_le _
  · exact Nat.div_le_div_left (by omega) (by decide)

namespace Arithmetic

/-- Division by one number after the other is too large at no point: the dividend is not the smallest number,
or the first divisor that is not 1 is not -1. -/
def Regular (m : Int64) (ns : List Int64) : Prop :=
  m = .minValue → ns.find? (· ≠ 1) ≠ some (-1)

instance (m : Int64) (ns : List Int64) : Decidable (Regular m ns) :=
  inferInstanceAs (Decidable (m = .minValue → ns.find? (· ≠ 1) ≠ some (-1)))

variable {m n : Int64} {ns : List Int64}

theorem toInt_div_of_regular (h : m = .minValue → n ≠ -1) : (m / n).toInt = m.toInt.tdiv n.toInt := by
  by_cases hn : n = -1
  · exact Int64.toInt_div_of_ne_left m n fun hm => h hm hn
  · exact Int64.toInt_div_of_ne_right m n hn

/-- No quotient is the smallest number, but of this number and 1. -/
theorem div_ne_minValue (hn : n ≠ 1) (h : m = .minValue → n ≠ -1) : m / n ≠ .minValue := by
  intro hmin
  have hm := fits_iff.mp (fits_toInt m)
  have hquotient := congrArg Int64.toInt hmin
  rw [toInt_div_of_regular h, Int64.toInt_minValue] at hquotient
  by_cases hneg : n = -1
  · have hm' : m.toInt ≠ -9223372036854775808 := fun e => h (Int64.toInt_inj.mp e) hneg
    have hone : (-1 : Int64).toInt = -1 := rfl
    rw [hneg, hone, Int.tdiv_neg, Int.tdiv_one] at hquotient
    omega
  · have hone : n.toInt ≠ 1 := fun e => hn (Int64.toInt_inj.mp e)
    have hneg' : n.toInt ≠ -1 := fun e => hneg (Int64.toInt_inj.mp e)
    have hhalf := natAbs_tdiv_le_half (x := m.toInt) hone hneg'
    rw [hquotient] at hhalf
    omega

/-- After a division the rest is still too large at no point. -/
theorem Regular.tail (h : Regular m (n :: ns)) : (m = .minValue → n ≠ -1) ∧ Regular (m / n) ns := by
  -- to divide by 1 changes nothing, and any other quotient is not the smallest number
  by_cases hn : n = 1
  · have hdiv : m / n = m := by rw [hn, Int64.div_one]
    have hns : Regular m ns := by
      intro hm
      simpa [hn] using h hm
    exact ⟨fun _ => by rw [hn]; decide, by rwa [hdiv]⟩
  · have hhead : m = .minValue → n ≠ -1 := by
      intro hm he
      exact h hm (by simp [he])
    exact ⟨hhead, fun hmin => absurd hmin (div_ne_minValue hn hhead)⟩

theorem ratio_of_ne_zero (hn : n ≠ 0) : ratio m n = .ok (m / n) := if_neg hn

/-- Division by several numbers fails only with a division by zero, and only if one of them is zero. -/
theorem foldlM_ratio_eq_error_iff {e : EvalError} :
    ns.foldlM ratio m = .error e ↔ e = .divisionByZero ∧ 0 ∈ ns := by
  induction ns generalizing m with
  | nil => simp [pure, Except.pure]
  | cons n ns ih =>
    rw [List.foldlM_cons, Except.bind_eq_error_iff]
    by_cases hn : n = 0
    · simp [ratio, hn, eq_comm]
    · simp [ratio_of_ne_zero hn, ih, Ne.symm hn]

/-- Division by several numbers is division by their exact product. -/
theorem foldlM_ratio_eq_ok (h0 : 0 ∉ ns) (h : Regular m ns) :
    ∃ r, ns.foldlM ratio m = .ok r ∧ r.toInt = m.toInt.tdiv (exactProduct ns) := by
  induction ns generalizing m with
  | nil => exact ⟨m, rfl, by simp [exactProduct]⟩
  | cons n ns ih =>
    obtain ⟨hn, hns⟩ : 0 ≠ n ∧ 0 ∉ ns := by simpa using h0
    obtain ⟨hhead, htail⟩ := h.tail
    obtain ⟨r, hr, hvalue⟩ := ih hns htail
    refine ⟨r, ?_, ?_⟩
    · rw [List.foldlM_cons, ratio_of_ne_zero (Ne.symm hn)]
      exact hr
    · rw [hvalue, toInt_div_of_regular hhead, tdiv_tdiv, exactProduct, exactProduct, List.map_cons,
        List.prod_cons]

end Arithmetic

namespace Operation

open Arithmetic

/-- A quotient fails exactly if one of the divisors is zero, and then as a division by zero.  Otherwise, unless
the smallest number is divided by -1 on the way, it is the first argument divided by the exact product of the
others, cut off toward zero.  The order of the divisors does not matter to other first arguments. -/
theorem quotient_exact (m : Int64) (ns : List Int64) :
    (∀ e, divide.apply (m :: ns) = .error e ↔ e = .divisionByZero ∧ 0 ∈ ns) ∧
    (0 ∉ ns → Regular m ns →
      ∃ r, divide.apply (m :: ns) = .ok r ∧ r.toInt = m.toInt.tdiv (exactProduct ns)) ∧
    (m ≠ .minValue → ∀ ms, ms.Perm ns → divide.apply (m :: ms) = divide.apply (m :: ns)) := by
  refine ⟨fun e => foldlM_ratio_eq_error_iff, foldlM_ratio_eq_ok, fun hm ms hperm => ?_⟩
  have hregular (ns : List Int64) : Regular m ns := fun hmin => absurd hmin hm
  show ms.foldlM ratio m = ns.foldlM ratio m
  by_cases h0 : 0 ∈ ns
  · rw [foldlM_ratio_eq_error_iff.mpr ⟨rfl, h0⟩,
      foldlM_ratio_eq_error_iff.mpr ⟨rfl, hperm.mem_iff.mpr h0⟩]
  · obtain ⟨r, hr, hvalue⟩ := foldlM_ratio_eq_ok h0 (hregular ns)
    obtain ⟨r', hr', hvalue'⟩ := foldlM_ratio_eq_ok (mt hperm.mem_iff.mp h0) (hregular ms)
    rw [exactProduct_of_perm hperm, ← hvalue, Int64.toInt_inj] at hvalue'
    rw [hr, hr', hvalue']

theorem minValue_divided :
    ¬Fits (exactProduct [1, 2, -1, .maxValue]) ∧
      (∃ r, divide.apply [.minValue, 1, 2, -1, .maxValue] = .ok r ∧ r.toInt = 0) ∧
      divide.apply [7, 3, 0, -2] = .error .divisionByZero ∧
      divide.apply [7, 3, -2] = divide.apply [7, -2, 3] := by
  have hproduct : exactProduct [1, 2, -1, .maxValue] = -18446744073709551614 := by decide
  obtain ⟨-, hvalue, -⟩ := quotient_exact .minValue [1, 2, -1, .maxValue]
  obtain ⟨herror, -, -⟩ := quotient_exact 7 [3, 0, -2]
  obtain ⟨-, -, hperm⟩ := quotient_exact 7 [-2, 3]
  obtain ⟨r, hr, hr0⟩ := hvalue (by decide) (by decide)
  rw [hproduct] at hr0
  refine ⟨?_, ⟨r, hr, hr0⟩, (herror _).mpr ⟨rfl, by decide⟩, hperm (by decide) _ (.swap ..)⟩
  rw [fits_iff, hproduct]
  decide

/-- The smallest number over -1 stays the same, and what follows divides that. -/
example : ¬Regular .minValue [1, -1, 2] ∧
    divide.apply [.minValue, 1, -1, 2] = .ok (-4611686018427387904) ∧
    Int64.minValue.toInt.tdiv (exactProduct [1, -1, 2]) = 4611686018427387904 := by
  decide

end Operation

end FormulaGrid
