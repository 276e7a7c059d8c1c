import FormulaGrid.Proofs.Averages

/-!
# Proofs.Ranks — the median by ranks

Before a place of the sorted arguments stand as many arguments as its number says, none of them larger, and
after it stand the rest, none of them smaller (`le_of_mem_take_sorted`, `le_of_mem_drop_sorted`).  So the median
can be told from the arguments in any order: it is one of them that few are smaller or larger than, or half
the sum of two that are next to each other by size (`median_by_rank`).
-/

namespace FormulaGrid

namespace Statistics

variable {ms ns : List Int64}

theorem perm_sorted (ns : List Int64) : (sorted ns).Perm ns := List.mergeSort_perm ns _

/-- The sorted arguments do not depend on the order of the arguments. -/
theorem sorted_of_perm (h : ms.Perm ns) : sorted ms = sorted ns := by
  have hperm : (sorted ms).Perm (sorted ns) := (perm_sorted ms).trans (h.trans (perm_sorted ns).symm)
  exact hperm.eq_of_pairwise (fun _ _ _ _ => Int64.le_antisymm) (pairwise_sorted ms) (pairwise_sorted ns)

theorem median_of_perm (h : ms.Perm ns) : median ms = median ns := by
  simp only [median, sorted_of_perm h, h.length_eq, Arithmetic.eq_nil_iff_of_perm h]

/-! ### Places of the sorted arguments -/

theorem length_sorted (ns : List Int64) : (sorted ns).length = ns.length := (perm_sorted ns).length_eq

theorem drop_sorted {i : Nat} (hi : i < ns.length) :
    (sorted ns).drop i = (sorted ns).getD i 0 :: (sorted ns).drop (i + 1) := by
  rw [← length_sorted] at hi
  rw [List.drop_eq_getElem_cons hi, List.getElem_eq_getD 0]

theorem take_append_drop_sorted {i : Nat} (hi : i < ns.length) :
    (sorted ns).take i ++ (sorted ns).getD i 0 :: (sorted ns).drop (i + 1) = sorted ns := by
  rw [← drop_sorted hi, List.take_append_drop]

theorem le_of_mem_take_sorted {i : Nat} (hi : i < ns.length) {n : Int64} (hn : n ∈ (sorted ns).take i) :
    n ≤ (sorted ns).getD i 0 := by
  have hpairwise := pairwise_sorted ns
  rw [← take_append_drop_sorted hi, List.pairwise_append] at hpairwise
  exact hpairwise.2.2 n hn _ (by simp)

theorem le_of_mem_drop_sorted {i : Nat} (hi : i < ns.length) {n : Int64}
    (hn : n ∈ (sorted ns).drop (i + 1)) : (sorted ns).getD i 0 ≤ n := by
  have hpairwise := pairwise_sorted ns
  rw [← take_append_drop_sorted hi, List.pairwise_append, List.pairwise_cons] at hpairwise
  exact hpairwise.2.1.1 n hn

theorem countP_eq_around (p : Int64 → Bool) {i : Nat} (hi : i < ns.length) :
    ns.countP p = ((sorted ns).take i).countP p +
      ((sorted ns).getD i 0 :: (sorted ns).drop (i + 1)).countP p := by
  rw [← List.countP_append, take_append_drop_sorted hi, (perm_sorted ns).countP_eq]

/-- No more arguments are smaller than a sorted one than stand before it. -/
theorem countP_smaller_le {i : Nat} (hi : i < ns.length) :
    ns.countP (· < (sorted ns).getD i 0) ≤ i := by
  have hfrom : ((sorted ns).getD i 0 :: (sorted ns).drop (i + 1)).countP
      (· < (sorted ns).getD i 0) = 0 := by
    simpa [List.countP_eq_zero, Int64.not_lt] using fun n hn => le_of_mem_drop_sorted hi hn
  rw [countP_eq_around _ hi, hfrom, Nat.add_zero]
  exact Nat.le_trans List.countP_le_length (List.length_take_le ..)

/-- No more arguments are larger than a sorted one than stand after it. -/
theorem countP_larger_le {i : Nat} (hi : i < ns.length) :
    ns.countP ((sorted ns).getD i 0 < ·) ≤ ns.length - (i + 1) := by
  have hbefore : ((sorted ns).take i).countP ((sorted ns).getD i 0 < ·) = 0 := by
    simpa [List.countP_eq_zero, Int64.not_lt] using fun n hn => le_of_mem_take_sorted hi hn
  rw [countP_eq_around _ hi, hbefore, Nat.zero_add, List.countP_cons_of_neg (by simp),
    ← length_sorted, ← List.length_drop]
  exact List.countP_le_length

/-! ### The median -/

/-- Of an odd number of arguments, no more than half of the others are smaller than the median, and no more
than half larger. -/
theorem median_of_odd_by_rank (hodd : ns.length % 2 = 1) :
    median ns ∈ ns ∧ ns.countP (· < median ns) ≤ (ns.length - 1) / 2 ∧
      ns.countP (median ns < ·) ≤ (ns.length - 1) / 2 := by
  have hplace : (ns.length - 1) / 2 < ns.length := by omega
  have hrest : ns.length - ((ns.length - 1) / 2 + 1) = (ns.length - 1) / 2 := by omega
  have hlarger := countP_larger_le hplace
  rw [hrest] at hlarger
  rw [(median_of_odd hodd).1, lower]
  exact ⟨getD_sorted_mem hplace, countP_smaller_le hplace, hlarger⟩

theorem lower_of_even (heven : ns.length % 2 ≠ 1) :
    lower ns = (sorted ns).getD (ns.length / 2 - 1) 0 := by
  have hplace : (ns.length - 1) / 2 = ns.length / 2 - 1 := by omega
  rw [lower, hplace]

/-- As many arguments stand before the two middle ones as after them. -/
theorem length_around_middle (hne : ns ≠ []) (heven : ns.length % 2 ≠ 1) :
    ((sorted ns).take (ns.length / 2 - 1)).length = ns.length / 2 - 1 ∧
      ((sorted ns).drop (ns.length / 2 + 1)).length = ns.length / 2 - 1 := by
  have hn : 0 < ns.length := List.length_pos_iff.mpr hne
  rw [List.length_take, List.length_drop, length_sorted]
  omega

/-- The arguments are the two middle ones, those before them and those after them by size. -/
theorem perm_around_middle (hne : ns ≠ []) (heven : ns.length % 2 ≠ 1) :
    (lower ns :: upper ns :: ((sorted ns).take (ns.length / 2 - 1) ++
      (sorted ns).drop (ns.length / 2 + 1))).Perm ns := by
  have hn : 0 < ns.length := List.length_pos_iff.mpr hne
  have hlower : ns.length / 2 - 1 < ns.length := by omega
  have hupper : ns.length / 2 < ns.length := by omega
  have hnext : ns.length / 2 - 1 + 1 = ns.length / 2 := by omega
  have hsorted := take_append_drop_sorted hlower
  rw [hnext, drop_sorted hupper, ← lower_of_even heven] at hsorted
  refine (List.perm_middle.symm.cons _).trans (List.perm_middle.symm.trans ?_)
  exact (List.Perm.of_eq hsorted).trans (perm_sorted ns)

theorem toInt_half_add (m n : Int64) :
    ((m + n) / 2).toInt = ((m.toInt + n.toInt).bmod Int64.size).tdiv 2 := by
  have htwo : (2 : Int64).toInt = 2 := rfl
  rw [Int64.toInt_div_of_ne_right _ 2 (by decide), Int64.toInt_add, htwo]

/-- The median does not depend on the order of the arguments.  Of an odd number of arguments it is one that no
more than half of the others are smaller than, and no more than half larger.  For an even number, two arguments
at two places are such that half of the others are at most the smaller one, and half at least the larger one;
the median is half their sum, which wraps around, cut off toward zero. -/
theorem median_by_rank (hne : ns ≠ []) :
    (∀ ms, ms.Perm ns → Operation.median.apply ms = Operation.median.apply ns) ∧
    (ns.length % 2 = 1 → ∃ m ∈ ns, Operation.median.apply ns = .ok m ∧
      ns.countP (· < m) ≤ (ns.length - 1) / 2 ∧ ns.countP (m < ·) ≤ (ns.length - 1) / 2) ∧
    (ns.length % 2 = 0 → ∃ a b low high m, (a :: b :: (low ++ high)).Perm ns ∧ a ≤ b ∧
      low.length = ns.length / 2 - 1 ∧ high.length = ns.length / 2 - 1 ∧
      (∀ n ∈ low, n ≤ a) ∧ (∀ n ∈ high, b ≤ n) ∧
      Operation.median.apply ns = .ok m ∧
      m.toInt = ((a.toInt + b.toInt).bmod Int64.size).tdiv 2) := by
  refine ⟨fun ms h => congrArg Except.ok (median_of_perm h), fun hodd => ?_, fun heven => ?_⟩
  · obtain ⟨hmem, hcounts⟩ := median_of_odd_by_rank hodd
    exact ⟨median ns, hmem, rfl, hcounts⟩
  · have hn : 0 < ns.length := List.length_pos_iff.mpr hne
    have hnot : ns.length % 2 ≠ 1 := by omega
    obtain ⟨hbefore, hafter⟩ := length_around_middle hne hnot
    have hlow : ∀ n ∈ (sorted ns).take (ns.length / 2 - 1), n ≤ lower ns := fun n h =>
      lower_of_even hnot ▸ le_of_mem_take_sorted (by omega) h
    have hhigh : ∀ n ∈ (sorted ns).drop (ns.length / 2 + 1), upper ns ≤ n := fun n h =>
      le_of_mem_drop_sorted (by omega) h
    have hvalue : (median ns).toInt =
        (((lower ns).toInt + (upper ns).toInt).bmod Int64.size).tdiv 2 := by
      rw [median_of_even hne hnot, toInt_half_add]
    exact ⟨lower ns, upper ns, _, _, median ns, perm_around_middle hne hnot, lower_le_upper hne,
      hbefore, hafter, hlow, hhigh, rfl, hvalue⟩

/-- Four numbers of which the two largest are equal, and too large to be added to any positive one. -/
def fourNumbers : List Int64 := [.maxValue, 1, .maxValue, -5]

theorem fourNumbers_median :
    Operation.median.apply fourNumbers.reverse = Operation.median.apply fourNumbers ∧
      (∃ a b low high m, (a :: b :: (low ++ high)).Perm fourNumbers ∧ a ≤ b ∧ low.length = 1 ∧
        high.length = 1 ∧ (∀ n ∈ low, n ≤ a) ∧ (∀ n ∈ high, b ≤ n) ∧
        Operation.median.apply fourNumbers = .ok m ∧
        m.toInt = ((a.toInt + b.toInt).bmod Int64.size).tdiv 2) ∧
      ∃ m ∈ (0 :: fourNumbers), Operation.median.apply (0 :: fourNumbers) = .ok m ∧
        (0 :: fourNumbers).countP (· < m) ≤ 2 ∧ (0 :: fourNumbers).countP (m < ·) ≤ 2 := by
  have hne : fourNumbers ≠ [] := by decide
  obtain ⟨hperm, -, heven⟩ := median_by_rank hne
  obtain ⟨-, hodd, -⟩ := median_by_rank (List.cons_ne_nil 0 fourNumbers)
  exact ⟨hperm _ (List.reverse_perm _), heven rfl, hodd rfl⟩

end Statistics

end FormulaGrid
