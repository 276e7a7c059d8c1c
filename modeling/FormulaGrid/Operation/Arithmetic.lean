import FormulaGrid.Operation.Basic

/-!
# Operation.Arithmetic — sums, differences, products, quotients, order

All arithmetic is that of 64-bit words: it wraps around.  The operations fold their arguments from
the left.
-/

namespace FormulaGrid

namespace Arithmetic

/-- The sum of all arguments. -/
def sum (ns : List Int64) : Int64 := ns.foldl (· + ·) 0

/-- The first argument less all others. -/
def difference : List Int64 → Int64
  | [] => 0
  | n :: ns => ns.foldl (· - ·) n

/-- The product of all arguments; there is none to speak of without arguments. -/
def product : List Int64 → Int64
  | [] => 0
  | n :: ns => ns.foldl (· * ·) n

/-- The quotient of two numbers, cut off toward zero. -/
def ratio (m n : Int64) : Except EvalError Int64 :=
  if n = 0 then .error .divisionByZero else .ok (m / n)

/-- The first argument divided by each of the others in turn. -/
def quotient : List Int64 → Except EvalError Int64
  | [] => .ok 0
  | n :: ns => ns.foldlM ratio n

/-- Whether each argument is less than the next. -/
def ascending : List Int64 → Bool
  | m :: n :: ns => decide (m < n) && ascending (n :: ns)
  | _ => true

end Arithmetic

namespace Operation

open Arithmetic

/-- `+`, the sum. -/
def plus : Operation := ⟨"+", .oneOrMore, .between, fun ns => .ok (sum ns)⟩

/-- `-`, the difference. -/
def minus : Operation := ⟨"-", .oneOrMore, .between, fun ns => .ok (difference ns)⟩

/-- `*`, the product. -/
def times : Operation := ⟨"*", .oneOrMore, .between, fun ns => .ok (product ns)⟩

/-- `/`, the quotient. -/
def divide : Operation := ⟨"/", .oneOrMore, .between, quotient⟩

/-- `<`, which is 1 for ascending arguments and 0 for others. -/
def less : Operation := ⟨"<", .oneOrMore, .between, fun ns => .ok (if ascending ns then 1 else 0)⟩

/-- `,`, which holds the arguments of another operation and has no value. -/
def comma : Operation := ⟨",", .oneOrMore, .list, fun _ => .error .argumentList⟩

end Operation

end FormulaGrid
