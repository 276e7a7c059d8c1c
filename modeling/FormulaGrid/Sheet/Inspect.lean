import FormulaGrid.Formula.Inspect
import FormulaGrid.Sheet.Basic

/-!
# Sheet.Inspect — a sheet in one line

The size of a sheet, its initial formula and its builtins, with formulas shown node by node.  The
cells are left out.
-/

namespace FormulaGrid.Sheet

/-- A sheet without its cells. -/
def inspect (s : Sheet) : String :=
  "Sheet \x7b rows: " ++ s.extent.rows.toNat.repr ++
    ", columns: " ++ s.extent.columns.toNat.repr ++
    ", default_formula: " ++ s.initial.inspect ++
    ", builtins: \x7b" ++ ", ".intercalate (s.builtins.map Formula.inspectEntry) ++ "\x7d, .. \x7d"

end FormulaGrid.Sheet
