import FormulaGrid.Operation.Arithmetic
import Mathlib.Algebra.Order.BigOperators.Group.List
import Mathlib.Algebra.Order.Ring.Int
import Mathlib.Data.Nat.Cast.Basic

/-!
# Proofs.Wrapping — arithmetic of words and exact arithmetic

A word stands for all the integers that differ from its value by multiples of the number of words
(`exists_toInt_ofInt`), and for an integer in its range it stands exactly (`toInt_ofInt_iff`).  Sums, differences
and products of words wrap around at every step.  As each step is that of the integers up to wrapping, to wrap
around once at the end comes to the same (`foldl_ofInt`): the results are the words of the exact ones
(`sum_eq_ofInt`, `difference_eq_ofInt`, `product_eq_ofInt`).
-/

namespace FormulaGrid

/-- An integer is the value of a 64-bit word. -/
def Fits (z : Int) : Prop := Int64.minValue.toInt ≤ z ∧ z ≤ Int64.maxValue.toInt

theorem fits_iff {z : Int} : Fits z ↔ -9223372036854775808 ≤ z ∧ z < 9223372036854775808 := by
  rw [Fits, Int64.toInt_minValue, Int64.toInt_maxValue]
  omega

theorem fits_toInt (n : Int64) : Fits n.toInt := ⟨n.minValue_le_toInt, n.toInt_le⟩

/-- The word of an integer has its value up to multiples of the number of words. -/
theorem exists_toInt_ofInt (z : Int) : ∃ k, (Int64.ofInt z).toInt = z + 18446744073709551616 * k := by
  refine ⟨-z.bdiv Int64.size, ?_⟩
  rw [Int64.toInt_ofInt]
  have hbdiv : z.bmod Int64.size + 18446744073709551616 * z.bdiv Int64.size = z :=
    Int.bmod_add_bdiv z Int64.size
  omega

theorem toInt_ofInt_iff {z : Int} : (Int64.ofInt z).toInt = z ↔ Fits z := by
  constructor
  · intro h
    exact h ▸ fits_toInt (Int64.ofInt z)
  · intro h
    obtain ⟨k, hk⟩ := exists_toInt_ofInt z
    have hword := fits_iff.mp (fits_toInt (Int64.ofInt z))
    have hz := fits_iff.mp h
    omega

/-- A word is that of an integer: its value is the residue of the integer among the values of words, and so it
is the integer itself if that is one of them. -/
structure IsWordOf (n : Int64) (z : Int) : Prop where
  wrapped : n.toInt = z.bmod Int64.size
  exact : Fits z → n.toInt = z

theorem isWordOf_ofInt (z : Int) : IsWordOf (Int64.ofInt z) z where
  wrapped := Int64.toInt_ofInt
  exact := toInt_ofInt_iff.mpr

namespace Arithmetic

/-- The exact sum of words. -/
def total (ns : List Int64) : Int := (ns.map Int64.toInt).sum

/-- The first word less all others, exactly. -/
def exactDifference : List Int64 → Int
  | [] => 0
  | n :: ns => n.toInt - total ns

/-- The exact product of words. -/
def exactProduct (ns : List Int64) : Int := (ns.map Int64.toInt).prod

theorem eq_nil_iff_of_perm {ms ns : List Int64} (h : ms.Perm ns) : ms = [] ↔ ns = [] :=
  ⟨fun hms => (hms ▸ h).symm.eq_nil, fun hns => (hns ▸ h).eq_nil⟩

theorem total_of_perm {ms ns : List Int64} (h : ms.Perm ns) : total ms = total ns :=
  (h.map Int64.toInt).sum_eq

theorem exactProduct_of_perm {ms ns : List Int64} (h : ms.Perm ns) :
    exactProduct ms = exactProduct ns :=
  (h.map Int64.toInt).prod_eq

/-- To wrap around at every step of a fold is to wrap its exact result around once. -/
theorem foldl_ofInt {op : Int64 → Int64 → Int64} {exact : Int → Int → Int}
    (h : ∀ y z, Int64.ofInt (exact y z) = op (Int64.ofInt y) (Int64.ofInt z)) (ns : List Int64)
    (z : Int) :
    ns.foldl op (Int64.ofInt z) = Int64.ofInt ((ns.map Int64.toInt).foldl exact z) := by
  rw [List.foldl_map]
  refine List.foldl_hom Int64.ofInt fun y n => ?_
  rw [h, Int64.ofInt_toInt]

theorem sum_eq_ofInt (ns : List Int64) : sum ns = Int64.ofInt (total ns) := by
  rw [total, List.sum_eq_foldl]
  exact foldl_ofInt Int64.ofInt_add ns 0

theorem foldl_sub (zs : List Int) (z : Int) : zs.foldl (· - ·) z = z - zs.sum := by
  induction zs generalizing z with
  | nil => simp
  | cons y zs ih => rw [List.foldl_cons, ih, List.sum_cons, Int.sub_sub]

theorem difference_eq_ofInt (ns : List Int64) : difference ns = Int64.ofInt (exactDifference ns) := by
  cases ns with
  | nil => rfl
  | cons n ns =>
    rw [exactDifference, total, ← foldl_sub, ← foldl_ofInt Int64.ofInt_sub, Int64.ofInt_toInt,
      difference]

theorem product_eq_ofInt {ns : List Int64} (hne : ns ≠ []) :
    product ns = Int64.ofInt (exactProduct ns) := by
  cases ns with
  | nil => exact absurd rfl hne
  | cons n ns =>
    have hfold : (ns.map Int64.toInt).foldl (· * ·) (n.toInt * 1) =
        n.toInt * (ns.map Int64.toInt).prod := by
      rw [List.foldl_assoc, List.prod_eq_foldl]
    rw [exactProduct, List.map_cons, List.prod_cons, ← hfold, Int.mul_one,
      ← foldl_ofInt Int64.ofInt_mul, Int64.ofInt_toInt, product]

/-- A sum lies between as many times the least and the greatest value. -/
theorem total_between {ns : List Int64} {lo hi : Int64} (hlo : ∀ n ∈ ns, lo ≤ n) (hhi : ∀ n ∈ ns, n ≤ hi) :
    ns.length * lo.toInt ≤ total ns ∧ total ns ≤ ns.length * hi.toInt := by
  have hmin := List.card_nsmul_le_sum (ns.map Int64.toInt) lo.toInt
  have hmax := List.sum_le_card_nsmul (ns.map Int64.toInt) hi.toInt
  simp only [List.forall_mem_map, List.length_map, nsmul_eq_mul, ← Int64.le_iff_toInt_le] at hmin hmax
  exact ⟨hmin hlo, hmax hhi⟩

end Arithmetic

end FormulaGrid
