import FormulaGrid.Operation.Arity
import FormulaGrid.Text.Uppercase

/-!
# Operation — named functions on 64-bit integers

An operation has a name, an arity, a style in which its nodes are shown, and a function from the
values of its arguments.  Names that differ only in case name the same operation.
-/

namespace FormulaGrid

/-- Why a formula has no value. -/
inductive EvalError where
  /-- `user` needs a constant and was given nothing, or the formula shown as `found?`. -/
  | notConstant (user : String) (found? : Option String)
  | divisionByZero
  /-- The arguments of a comma are not a value. -/
  | argumentList
  /-- `name` was reached again while it was being resolved. -/
  | circular (name : String)
  deriving DecidableEq, Repr

/-- The wording of an evaluation error. -/
def EvalError.message : EvalError → String
  | notConstant user none => user ++ " requires a constant, found nothing"
  | notConstant user (some found) => user ++ " requires a constant, found '" ++ found ++ "'"
  | divisionByZero => "Division by zero"
  | argumentList => "Argument list cannot be used as a value"
  | circular name => "Circular reference through " ++ name

/-- How a node is shown. -/
inductive Style where
  /-- The name stands between the arguments: `a + b`. -/
  | between
  /-- The name stands before the arguments in parentheses: `MEAN(a, b)`. -/
  | call
  /-- The arguments stand alone: `a, b`. -/
  | list
  deriving DecidableEq, Repr

/-- A function that formulas may use. -/
structure Operation where
  name : String
  arity : Arity
  style : Style
  /-- The value for given argument values, in order. -/
  apply : List Int64 → Except EvalError Int64

/-- The form of a name that tells operations apart. -/
def Operation.key (op : Operation) : String := upper op.name

/-- Refuses a count of arguments that the operation does not take. -/
def Operation.checkCount (op : Operation) (count : Nat) : Except BuildError Unit :=
  if op.arity.admits count then .ok () else .error (.argumentCount op.name op.arity count)

end FormulaGrid
