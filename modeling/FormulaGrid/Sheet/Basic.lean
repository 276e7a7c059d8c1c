import FormulaGrid.Catalog.Builder
import FormulaGrid.Formula.Bindings
import FormulaGrid.Sheet.Extent

/-!
# Sheet — a grid of formulas

Every cell of a sheet holds a formula, at first the sheet's initial formula.  Besides the cells a
sheet has builtins, named formulas outside the grid, and a reader for formula text.  To set a cell
changes that cell and no other (`formulaAt_set`).
-/

namespace FormulaGrid

/-- What a sheet is made from. -/
structure SheetOptions where
  rows : UInt32 := 20
  columns : UInt16 := Cell.letters
  /-- What every cell holds until it is filled, and after it is cleared. -/
  initial : Formula := .blank
  /-- Named formulas outside the grid; later entries replace earlier ones. -/
  builtins : List (String × Formula) := []

/-- A grid of formulas. -/
structure Sheet where
  read : String → Except ParseError Formula
  extent : Extent
  initial : Formula
  builtins : List (String × Formula)
  cells : Vector Formula extent.size

namespace Sheet

/-- An unfilled sheet. -/
def create (read : String → Except ParseError Formula) (o : SheetOptions) :
    Except AddressError Sheet := do
  let extent ← Extent.check o.rows o.columns
  return {
    read, extent
    initial := o.initial
    builtins := Bindings.latest o.builtins
    cells := Vector.replicate _ o.initial }

variable (s : Sheet)

/-- The formula in the cell with a number. -/
def formula (i : Fin s.extent.size) : Formula := s.cells.get i

/-- The formula in a cell. -/
def formulaAt (a : Cell) : Except AddressError Formula := (s.extent.index a).map s.formula

/-- The sheet with another formula in one cell. -/
def set (i : Fin s.extent.size) (f : Formula) : Sheet :=
  { s with cells := s.cells.set i f i.isLt }

/-- The builtin with a name. -/
def builtin? (name : String) : Option Formula := s.builtins.lookup name

/-- All cells in order, with their formulas. -/
def toList : List (Cell × Formula) :=
  (List.finRange s.extent.size).map fun i => (s.extent.cell i, s.formula i)

/-- The cells in order whose formula is not like the initial one. -/
def filled : List (Cell × Formula) := s.toList.filter fun entry => !entry.2.same s.initial

theorem formulaAt_cell (i : Fin s.extent.size) :
    s.formulaAt (s.extent.cell i) = .ok (s.formula i) := by
  rw [formulaAt, Extent.index_cell]
  rfl

/-- The set cell has the new formula, and no other cell changes. -/
theorem formulaAt_set (i : Fin s.extent.size) (f : Formula) (a : Cell) :
    (s.set i f).formulaAt a = if s.extent.cell i = a then .ok f else s.formulaAt a := by
  have cells (j : Fin s.extent.size) : (s.cells.set i f i.isLt).get j =
      if s.extent.cell i = s.extent.cell j then f else s.cells.get j := by
    have : i.val = j.val ↔ s.extent.cell i = s.extent.cell j := by
      rw [← Fin.ext_iff, ← Extent.index_eq_ok_iff, Extent.index_cell, Except.ok.injEq, eq_comm]
    simp only [← this]
    exact Vector.getElem_set i.isLt j.isLt
  by_cases h : a ∈ s.extent
  · obtain ⟨j, rfl⟩ := Extent.exists_cell_eq h
    refine ((s.set i f).formulaAt_cell j).trans ?_
    rw [s.formulaAt_cell j]
    refine (congrArg Except.ok (cells j)).trans ?_
    split <;> rfl
  · have hi : s.extent.cell i ≠ a := fun e => h (e ▸ Extent.cell_mem i)
    rw [if_neg hi]
    simp only [formulaAt, set, Extent.index_of_not_mem h]
    rfl

end Sheet

end FormulaGrid
