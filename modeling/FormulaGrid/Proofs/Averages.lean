import FormulaGrid.Operation.Statistics
import FormulaGrid.Proofs.Wrapping

/-!
# Proofs.Averages — where the mean and the median lie

Where the exact sum of the arguments fits a word, the mean is their exact average, cut off toward zero
(`mean_exact_iff`), and lies between the smallest and the largest one.  The median does where there is one
middle argument or the sum of the two fits (`average_between`).  Where the sums do not fit, two large arguments
have a negative average (`largest_pair_average`).
-/

namespace FormulaGrid

/-- The maximum of words is the one that the order gives. -/
instance lawfulMaxInt64 : Std.LawfulOrderLeftLeaningMax Int64 where
  max_eq_left m n h := by
    show (if m ≤ n then n else m) = m
    split
    next h' => exact Int64.le_antisymm h h'
    next => rfl
  max_eq_right m n h := if_pos (Int64.le_of_lt (Int64.not_le.mp h))

/-! ### Division toward zero -/

theorem tdiv_between {lo hi z : Int} {n : Nat} (hn : 0 < n) (hlo : n * lo ≤ z) (hhi : z ≤ n * hi) :
    lo ≤ z.tdiv n ∧ z.tdiv n ≤ hi := by
  have hpos : (0 : Int) < n := by omega
  have hcancel (x : Int) : (n * x).tdiv n = x := Int.mul_tdiv_cancel_left x (by omega)
  constructor
  · rw [← hcancel lo]
    exact Int.tdiv_le_tdiv hpos hlo
  · rw [← hcancel hi]
    exact Int.tdiv_le_tdiv hpos hhi

/-- Integers with the same quotient are less than twice the divisor apart. -/
theorem sub_lt_of_tdiv_eq {x y : Int} {n : Nat} (hn : 0 < n) (h : x.tdiv n = y.tdiv n) :
    x - y < 2 * n ∧ y - x < 2 * n := by
  have hpos : (0 : Int) < n := by omega
  have hx := Int.mul_tdiv_add_tmod x n
  have hy := Int.mul_tdiv_add_tmod y n
  have hxlt := Int.tmod_lt_of_pos x hpos
  have hxgt := Int.lt_tmod_of_pos x hpos
  have hylt := Int.tmod_lt_of_pos y hpos
  have hygt := Int.lt_tmod_of_pos y hpos
  rw [h] at hx
  omega

namespace Statistics

open Arithmetic

variable {ns : List Int64}

/-! ### The mean -/

theorem toInt_mean (hne : ns ≠ []) (hlen : Fits ns.length) :
    (mean ns).toInt = (Int64.ofInt (total ns)).toInt.tdiv ns.length := by
  have hcount : (Int64.ofNat ns.length).toInt = ns.length := by
    rw [← Int64.ofInt_eq_ofNat]
    exact toInt_ofInt_iff.mpr hlen
  have hneg : Int64.ofNat ns.length ≠ -1 := by
    intro h
    rw [h] at hcount
    have : (-1 : Int64).toInt = -1 := rfl
    omega
  rw [mean, if_neg hne, sum_eq_ofInt, Int64.toInt_div_of_ne_right _ _ hneg, hcount]

/-- The mean is the exact average, cut off toward zero, exactly if the exact sum fits a word. -/
theorem mean_exact_iff (hne : ns ≠ []) (hlen : Fits ns.length) :
    (mean ns).toInt = (total ns).tdiv ns.length ↔ Fits (total ns) := by
  rw [toInt_mean hne hlen]
  constructor
  · intro h
    -- the exact sum and its word are less than the number of words apart, so they are equal
    have hn : 0 < ns.length := List.length_pos_iff.mpr hne
    have hnear := sub_lt_of_tdiv_eq hn h
    have hmax := fits_iff.mp hlen
    obtain ⟨k, hk⟩ := exists_toInt_ofInt (total ns)
    refine toInt_ofInt_iff.mp ?_
    omega
  · intro h
    rw [toInt_ofInt_iff.mpr h]

theorem mean_between (hne : ns ≠ []) (hlen : Fits ns.length) (h : Fits (total ns)) {lo hi : Int64}
    (hlo : ∀ n ∈ ns, lo ≤ n) (hhi : ∀ n ∈ ns, n ≤ hi) : lo ≤ mean ns ∧ mean ns ≤ hi := by
  obtain ⟨hmin, hmax⟩ := total_between hlo hhi
  have hn : 0 < ns.length := List.length_pos_iff.mpr hne
  rw [Int64.le_iff_toInt_le, Int64.le_iff_toInt_le, (mean_exact_iff hne hlen).mpr h]
  exact tdiv_between hn hmin hmax

/-! ### The median -/

/-- The lower one of the two middle arguments by size, or the only one. -/
def lower (ns : List Int64) : Int64 := (sorted ns).getD ((ns.length - 1) / 2) 0

/-- The upper one of the two middle arguments by size, or the only one. -/
def upper (ns : List Int64) : Int64 := (sorted ns).getD (ns.length / 2) 0

theorem pairwise_sorted (ns : List Int64) : (sorted ns).Pairwise (· ≤ ·) := by
  have htrans (a b c : Int64) : decide (a ≤ b) = true → decide (b ≤ c) = true → decide (a ≤ c) = true := by
    simpa using Int64.le_trans
  have htotal (a b : Int64) : (decide (a ≤ b) || decide (b ≤ a)) = true := by
    simpa using Int64.le_total a b
  refine (List.pairwise_mergeSort htrans htotal ns).imp ?_
  simp

theorem sorted_of_pairwise (h : ns.Pairwise (· ≤ ·)) : sorted ns = ns :=
  List.mergeSort_of_pairwise (h.imp (by simp))

theorem getD_sorted_mem {i : Nat} (hi : i < ns.length) : (sorted ns).getD i 0 ∈ ns := by
  have hi' : i < (sorted ns).length := by rwa [sorted, List.length_mergeSort]
  rw [← List.getElem_eq_getD (h := hi'), ← List.mem_mergeSort]
  exact List.getElem_mem hi'

theorem getD_sorted_le {i j : Nat} (hij : i ≤ j) (hj : j < ns.length) :
    (sorted ns).getD i 0 ≤ (sorted ns).getD j 0 := by
  have hj' : j < (sorted ns).length := by rwa [sorted, List.length_mergeSort]
  rw [← List.getElem_eq_getD (h := Nat.lt_of_le_of_lt hij hj'), ← List.getElem_eq_getD (h := hj')]
  rcases Nat.eq_or_lt_of_le hij with rfl | hlt
  · exact Int64.le_refl _
  · exact List.pairwise_iff_getElem.mp (pairwise_sorted ns) i j _ hj' hlt

theorem lower_le_upper (hne : ns ≠ []) : lower ns ≤ upper ns := by
  have hn : 0 < ns.length := List.length_pos_iff.mpr hne
  exact getD_sorted_le (by omega) (by omega)

theorem median_of_odd (h : ns.length % 2 = 1) : median ns = lower ns ∧ median ns = upper ns := by
  have hne : ns ≠ [] := by
    rintro rfl
    cases h
  have hmiddle : (ns.length - 1) / 2 = ns.length / 2 := by omega
  rw [median, if_neg hne, if_pos h, lower, upper, hmiddle]
  exact ⟨rfl, rfl⟩

theorem median_of_even (hne : ns ≠ []) (h : ns.length % 2 ≠ 1) :
    median ns = (lower ns + upper ns) / 2 := by
  have hmiddle : (ns.length - 1) / 2 = ns.length / 2 - 1 := by omega
  rw [median, if_neg hne, if_neg h, lower, upper, hmiddle]

/-- Half the sum of two words lies between them exactly if the exact sum fits a word. -/
theorem half_between_iff {m n : Int64} (hmn : m ≤ n) :
    m ≤ (m + n) / 2 ∧ (m + n) / 2 ≤ n ↔ Fits (m.toInt + n.toInt) := by
  have hsum : m + n = Int64.ofInt (m.toInt + n.toInt) := by
    rw [Int64.ofInt_add, Int64.ofInt_toInt, Int64.ofInt_toInt]
  have htwo : (2 : Int64).toInt = 2 := rfl
  have hword := fits_iff.mp (fits_toInt (m + n))
  obtain ⟨k, hk⟩ := exists_toInt_ofInt (m.toInt + n.toInt)
  rw [← hsum] at hk
  have hquotient := Int.mul_tdiv_add_tmod (m + n).toInt 2
  have hlt := Int.tmod_lt_of_pos (m + n).toInt (b := 2) (by decide)
  have hgt := Int.lt_tmod_of_pos (m + n).toInt (b := 2) (by decide)
  have hm := fits_iff.mp (fits_toInt m)
  have hn := fits_iff.mp (fits_toInt n)
  rw [Int64.le_iff_toInt_le] at hmn
  rw [Int64.le_iff_toInt_le, Int64.le_iff_toInt_le, Int64.toInt_div_of_ne_right _ 2 (by decide), htwo,
    fits_iff]
  -- where the sum does not fit, both words have one sign and half their sum has the other
  omega

theorem median_between_iff (hne : ns ≠ []) :
    lower ns ≤ median ns ∧ median ns ≤ upper ns ↔
      ns.length % 2 = 1 ∨ Fits ((lower ns).toInt + (upper ns).toInt) := by
  by_cases hodd : ns.length % 2 = 1
  · obtain ⟨hlower, hupper⟩ := median_of_odd hodd
    exact iff_of_true ⟨hlower ▸ Int64.le_refl _, hupper ▸ Int64.le_refl _⟩ (.inl hodd)
  · rw [median_of_even hne hodd, half_between_iff (lower_le_upper hne)]
    exact ⟨.inr, fun h => h.resolve_left hodd⟩

/-! ### Both lie between the smallest and the largest argument -/

/-- The mean is exact only where the exact sum fits a word, and lies between the smallest and the largest
argument there.  The median lies between the middle arguments only where there is one of them or their exact
sum fits, and so between the smallest and the largest argument there. -/
theorem average_between (hne : ns ≠ []) (hlen : Fits ns.length) :
    ((mean ns).toInt = (total ns).tdiv ns.length ↔ Fits (total ns)) ∧
      (Fits (total ns) → ns.min hne ≤ mean ns ∧ mean ns ≤ ns.max hne) ∧
      (lower ns ≤ median ns ∧ median ns ≤ upper ns ↔
        ns.length % 2 = 1 ∨ Fits ((lower ns).toInt + (upper ns).toInt)) ∧
      (ns.length % 2 = 1 ∨ Fits ((lower ns).toInt + (upper ns).toInt) →
        ns.min hne ≤ median ns ∧ median ns ≤ ns.max hne) := by
  refine ⟨mean_exact_iff hne hlen, fun h => ?_, median_between_iff hne, fun h => ?_⟩
  · exact mean_between hne hlen h (fun _ hn => List.min_le_of_mem hn) fun _ hn => List.le_max_of_mem hn
  · have hn : 0 < ns.length := List.length_pos_iff.mpr hne
    have hmin : ns.min hne ≤ lower ns := List.min_le_of_mem (getD_sorted_mem (by omega))
    have hmax : upper ns ≤ ns.max hne := List.le_max_of_mem (getD_sorted_mem (by omega))
    obtain ⟨hlower, hupper⟩ := (median_between_iff hne).mpr h
    exact ⟨Int64.le_trans hmin hlower, Int64.le_trans hupper hmax⟩

/-- Numbers whose sum wraps around on the way and fits a word in the end. -/
def detour : List Int64 := [.minValue, -1, 2, 3]

theorem detour_average :
    Fits (total detour) ∧ (mean detour).toInt = (total detour).tdiv detour.length ∧
      detour.min (by decide) ≤ mean detour ∧ mean detour ≤ detour.max (by decide) ∧
      Fits ((lower detour).toInt + (upper detour).toInt) ∧
      lower detour ≤ median detour ∧ median detour ≤ upper detour ∧
      detour.min (by decide) ≤ median detour ∧ median detour ≤ detour.max (by decide) := by
  have hne : detour ≠ [] := by decide
  have htotal : Fits (total detour) := fits_iff.mpr (by decide)
  have hsorted : sorted detour = detour := sorted_of_pairwise (by decide)
  have hmiddle : Fits ((lower detour).toInt + (upper detour).toInt) := by
    rw [lower, upper, hsorted]
    exact fits_iff.mpr (by decide)
  obtain ⟨hexact, hmean, hbetween, hmedian⟩ := average_between hne (fits_iff.mpr (by decide))
  obtain ⟨hmin, hmax⟩ := hmean htotal
  obtain ⟨hlower, hupper⟩ := hbetween.mpr (.inr hmiddle)
  obtain ⟨hmin', hmax'⟩ := hmedian (.inr hmiddle)
  exact ⟨htotal, hexact.mpr htotal, hmin, hmax, hmiddle, hlower, hupper, hmin', hmax'⟩

/-- The averages of twice the largest number are negative, as twice that number does not fit a word. -/
theorem largest_pair_average :
    mean [Int64.maxValue, Int64.maxValue] = -1 ∧ median [Int64.maxValue, Int64.maxValue] = -1 ∧
      ¬[Int64.maxValue, Int64.maxValue].min (by decide) ≤ mean [Int64.maxValue, Int64.maxValue] ∧
      ¬[Int64.maxValue, Int64.maxValue].min (by decide) ≤ median [Int64.maxValue, Int64.maxValue] := by
  have hmean : mean [Int64.maxValue, Int64.maxValue] = -1 := by decide
  have hmedian : median [Int64.maxValue, Int64.maxValue] = -1 := by
    rw [median, sorted_of_pairwise (by decide)]
    decide
  rw [hmean, hmedian]
  decide

end Statistics

end FormulaGrid
