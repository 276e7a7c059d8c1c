import FormulaGrid.Dependents
import FormulaGrid.Sheet.Basic

/-!
# Sheet.Usage — which cells use a cell

The formulas of the grid are searched for the names of cells.  Builtins are not part of the grid,
so use by way of a builtin does not count.
-/

namespace FormulaGrid.Sheet

variable (s : Sheet)

/-- The cells of a sheet as named formulas. -/
def nodes : List (Node Cell) := s.toList.map fun (a, f) => ⟨a, a.label, f⟩

/-- The cells that use a cell, directly or through others; nothing uses a cell without a name. -/
def usedBy (a : Cell) : List Cell :=
  match a.name with
  | .ok name => Node.dependents s.nodes name
  | .error _ => []

end FormulaGrid.Sheet
