import FormulaGrid.Builder.Basic
import FormulaGrid.Text.Decimal

/-!
# Builder.Outline — formula text as nested names

A builder whose nodes are text: every operation is written as its name, with its arguments in
parentheses and a space between them.  It shows how a text groups, whatever operations exist.
-/

namespace FormulaGrid.Builder

/-- The builder of outlines, which refuses the operations named in `refused`. -/
def outline (refused : List String) : Builder String where
  blank := "_"
  constant n := String.ofList (Decimal.ofInt64 n)
  reference name := name
  apply name args :=
    if name ∈ refused then .error (.unknown name)
    else .ok (name ++ "(" ++ " ".intercalate args ++ ")")

end FormulaGrid.Builder
