import FormulaGrid.Formula.Basic
import FormulaGrid.Text.Decimal
import FormulaGrid.Text.Quoted

/-!
# Formula.Inspect — formulas shown node by node

Unlike the text of `Formula.render`, this form names the kind of every node and quotes every name.
-/

namespace FormulaGrid.Formula

mutual

/-- The structure of a formula. -/
def inspect : Formula → String
  | blank => "Empty"
  | const n => "Constant(" ++ String.ofList (Decimal.ofInt64 n) ++ ")"
  | ref name => "Reference(" ++ Quoted.ofString name ++ ")"
  | app op args =>
    "Function(Function \x7b name: " ++ Quoted.ofString op.name ++ ", args: [" ++
      ", ".intercalate (inspectAll args) ++ "] \x7d)"

/-- The structures of several formulas. -/
def inspectAll : List Formula → List String
  | [] => []
  | f :: fs => inspect f :: inspectAll fs

end

/-- A named formula, as `inspect` shows it. -/
def inspectEntry (entry : String × Formula) : String :=
  Quoted.ofString entry.1 ++ ": " ++ entry.2.inspect

end FormulaGrid.Formula
