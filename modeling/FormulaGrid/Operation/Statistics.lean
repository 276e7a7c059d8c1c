import FormulaGrid.Operation.Arithmetic

/-!
# Operation.Statistics — mean and median

Averages of 64-bit words, cut off toward zero.  Sums wrap around as in all arithmetic.
-/

namespace FormulaGrid

namespace Statistics

/-- The sum of the arguments divided by their count. -/
def mean (ns : List Int64) : Int64 :=
  if ns = [] then 0 else Arithmetic.sum ns / Int64.ofNat ns.length

/-- The arguments in ascending order. -/
def sorted (ns : List Int64) : List Int64 := ns.mergeSort fun m n => decide (m ≤ n)

/-- The middle argument by size, or half the sum of the two middle ones. -/
def median (ns : List Int64) : Int64 :=
  let half := ns.length / 2
  if ns = [] then 0
  else if ns.length % 2 = 1 then (sorted ns).getD half 0
  else ((sorted ns).getD (half - 1) 0 + (sorted ns).getD half 0) / 2

end Statistics

namespace Operation

/-- `MEAN`, the average. -/
def mean : Operation := ⟨"MEAN", .oneOrMore, .call, fun ns => .ok (Statistics.mean ns)⟩

/-- `MEDIAN`, the middle value. -/
def median : Operation := ⟨"MEDIAN", .oneOrMore, .call, fun ns => .ok (Statistics.median ns)⟩

end Operation

end FormulaGrid
