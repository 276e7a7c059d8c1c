import FormulaGrid.Proofs.Averages

/-!
# Proofs.Overflow — numbers too large on the way

Sums, differences, products and means come out as if only the final number were put into a word
(`values_wrap_once`).  So a number that is too large on the way does no harm if the final one fits, and the
order of the arguments does not matter, but for the first one of a difference.
-/

namespace FormulaGrid

namespace Arithmetic

variable {ms ns : List Int64}

theorem sum_of_perm (h : ms.Perm ns) : sum ms = sum ns := by
  rw [sum_eq_ofInt, sum_eq_ofInt, total_of_perm h]

theorem difference_of_perm (n : Int64) (h : ms.Perm ns) : difference (n :: ms) = difference (n :: ns) := by
  rw [difference_eq_ofInt, difference_eq_ofInt, exactDifference, exactDifference, total_of_perm h]

theorem product_of_perm (h : ms.Perm ns) : product ms = product ns := by
  by_cases hne : ns = []
  · rw [hne, (eq_nil_iff_of_perm h).mpr hne]
  · have hne' : ms ≠ [] := mt (eq_nil_iff_of_perm h).mp hne
    rw [product_eq_ofInt hne, product_eq_ofInt hne', exactProduct_of_perm h]

end Arithmetic

namespace Statistics

open Arithmetic

variable {ms ns : List Int64}

theorem mean_of_perm (h : ms.Perm ns) : mean ms = mean ns := by
  simp only [mean, sum_of_perm h, h.length_eq, eq_nil_iff_of_perm h]

end Statistics

namespace Operation

open Arithmetic

/-- Sums, differences and products of words are the words of the exact ones, and a mean is the sum divided by the
number of arguments, cut off toward zero.  They do not depend on the order of the arguments, but that a
difference starts with the first one.  The number of arguments of a mean fits a word, as it does for every list
that is held in memory. -/
theorem values_wrap_once {ns : List Int64} (hne : ns ≠ []) :
    ∃ s d p m, plus.apply ns = .ok s ∧ minus.apply ns = .ok d ∧ times.apply ns = .ok p ∧
      mean.apply ns = .ok m ∧
      IsWordOf s (total ns) ∧ IsWordOf d (exactDifference ns) ∧ IsWordOf p (exactProduct ns) ∧
      (Fits ns.length → m.toInt = s.toInt.tdiv ns.length ∧
        (Fits (total ns) → m.toInt = (total ns).tdiv ns.length)) ∧
      (∀ ms, ms.Perm ns → plus.apply ms = .ok s ∧ times.apply ms = .ok p ∧ mean.apply ms = .ok m) ∧
      ∀ first rest ms, ns = first :: rest → ms.Perm rest → minus.apply (first :: ms) = .ok d := by
  have hsum : IsWordOf (sum ns) (total ns) := sum_eq_ofInt ns ▸ isWordOf_ofInt _
  have hdifference : IsWordOf (difference ns) (exactDifference ns) :=
    difference_eq_ofInt ns ▸ isWordOf_ofInt _
  have hproduct : IsWordOf (product ns) (exactProduct ns) := product_eq_ofInt hne ▸ isWordOf_ofInt _
  refine ⟨sum ns, difference ns, product ns, Statistics.mean ns, rfl, rfl, rfl, rfl, hsum, hdifference,
    hproduct, fun hlen => ?_, fun ms hperm => ?_, fun first rest ms hcons hperm => ?_⟩
  · have hmean : (Statistics.mean ns).toInt = (sum ns).toInt.tdiv ns.length := by
      rw [Statistics.toInt_mean hne hlen, sum_eq_ofInt]
    exact ⟨hmean, fun hfits => by rw [hmean, hsum.exact hfits]⟩
  · exact ⟨congrArg Except.ok (sum_of_perm hperm), congrArg Except.ok (product_of_perm hperm),
      congrArg Except.ok (Statistics.mean_of_perm hperm)⟩
  · rw [hcons]
    exact congrArg Except.ok (difference_of_perm first hperm)

/-- Numbers whose sum, difference and product are all too large on the way in some order, and fit in the end. -/
def swing : List Int64 := [.minValue, -1, 1, 0]

theorem swing_values :
    ∃ s d p m, plus.apply swing = .ok s ∧ minus.apply [.minValue, 1, -1, 0] = .ok d ∧
      times.apply swing = .ok p ∧ mean.apply swing.reverse = .ok m ∧ s.toInt = -9223372036854775808 ∧
      d.toInt = -9223372036854775808 ∧ p.toInt = 0 ∧ m.toInt = -2305843009213693952 := by
  have hne : swing ≠ [] := by decide
  obtain ⟨s, d, p, m, hplus, -, htimes, -, hsum, hdifference, hproduct, hmean, hperm, htail⟩ :=
    values_wrap_once hne
  have htotal : total swing = -9223372036854775808 := by decide
  have hd : exactDifference swing = -9223372036854775808 := by decide
  have hp : exactProduct swing = 0 := by decide
  have hfits : Fits (-9223372036854775808) := fits_iff.mpr (by decide)
  obtain ⟨-, hexact⟩ := hmean (fits_iff.mpr (by decide))
  refine ⟨s, d, p, m, hplus, htail _ _ _ rfl (.swap ..), htimes, (hperm _ (List.reverse_perm _)).2.2,
    ?_, ?_, ?_, ?_⟩
  · rw [hsum.exact (htotal ▸ hfits), htotal]
  · rw [hdifference.exact (hd ▸ hfits), hd]
  · rw [hproduct.exact (hp ▸ fits_iff.mpr (by decide)), hp]
  · rw [hexact (htotal ▸ hfits), htotal]
    rfl

end Operation

end FormulaGrid
