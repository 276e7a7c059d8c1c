import FormulaGrid.Formula.Reduce
import FormulaGrid.Sheet.Basic

/-!
# Sheet.Value — what cells come to

The formulas of a sheet are reduced under the sheet itself: a name is that of a cell of the sheet,
or else that of a builtin.  Values are not kept, so a change shows at once wherever it matters.
-/

namespace FormulaGrid

/-- Why a sheet does not give or take a formula. -/
inductive SheetError where
  | address (e : AddressError)
  | eval (e : EvalError)
  deriving DecidableEq, Repr

/-- The wording of a sheet error. -/
def SheetError.message : SheetError → String
  | address e => e.message
  | eval e => "Type error: " ++ e.message

namespace Sheet

variable (s : Sheet)

/-- The number of the cell with a name. -/
def indexOf (name : String) : Except AddressError (Fin s.extent.size) := do
  s.extent.index (← Cell.parse name)

/-- The formula a name stands for: that of a cell, or else that of a builtin. -/
def resolve (name : String) : Option Formula :=
  match s.indexOf name with
  | .ok i => some (s.formula i)
  | .error _ => s.builtin? name

theorem eq_label_of_indexOf {name : String} {i : Fin s.extent.size} (h : s.indexOf name = .ok i) :
    name = (s.extent.cell i).label := by
  unfold indexOf at h
  cases hp : Cell.parse name with
  | error => simp [hp, bind, Except.bind] at h
  | ok a =>
    simp only [hp, bind, Except.bind] at h
    rw [Extent.index_eq_ok_iff.1 h]
    exact (Cell.parse_eq_ok hp).2

/-- The names of cells and builtins, bound to their formulas. -/
def bindings : Bindings where
  find? := s.resolve
  finite := by
    refine ⟨s.extent.cells.map Cell.label ++ s.builtins.map Prod.fst, fun name f h => ?_⟩
    unfold resolve at h
    split at h
    next i hi =>
      rw [s.eq_label_of_indexOf hi]
      exact List.mem_append_left _ (List.mem_map_of_mem (List.mem_map_of_mem (List.mem_finRange i)))
    next =>
      exact List.mem_append_right _ (List.mem_map_of_mem (Bindings.mem_of_lookup_eq_some h))

/-- What the formula in a cell comes to. -/
def valueAt (a : Cell) : Except SheetError Formula := do
  let f ← (s.formulaAt a).mapError .address
  (f.reduce s.bindings).mapError .eval

end Sheet

end FormulaGrid
