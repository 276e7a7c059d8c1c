import FormulaGrid.Proofs.Circles
import FormulaGrid.Proofs.Usage

/-!
# Proofs.SelfUse — cells that use themselves

A cell that is one of its own users lies on a circle of names, so it has no value, and no cell that uses it
has one.  Where builtins refer to nothing, circles lead through cells alone, and such a cell is behind
every circular reference (`valueAt_of_mem_usedBy_self`).
-/

namespace FormulaGrid.Sheet

open Formula

variable {s : Sheet}

/-- All operations in the formulas of cells and builtins are those of a catalog. -/
def Over (c : Catalog) (s : Sheet) : Prop :=
  (∀ i, (s.formula i).Over c) ∧ ∀ name f, s.builtin? name = some f → f.Over c

theorem Over.bindings {c : Catalog} (h : s.Over c) : s.bindings.Over c := by
  intro name f hf
  rcases resolve_cases hf with ⟨i, -, rfl⟩ | ⟨hbuiltin, -⟩
  · exact h.1 i
  · exact h.2 name f hbuiltin

theorem reaches_of_mem_usedBy {i j : Fin s.extent.size}
    (h : s.extent.cell j ∈ s.usedBy (s.extent.cell i)) :
    Reaches s.bindings (s.formula j) (s.extent.cell i).label :=
  (reaches_of_linked (mem_usedBy_cell_iff.mp h)).mono fun _ _ => find?_of_bare

/-- The name of a cell that uses itself lies on a circle. -/
theorem circle_of_mem_usedBy_self {i : Fin s.extent.size}
    (h : s.extent.cell i ∈ s.usedBy (s.extent.cell i)) :
    Relation.TransGen s.bindings.Edge (s.extent.cell i).label (s.extent.cell i).label :=
  path_iff_reaches.mpr ⟨_, resolve_label i, reaches_of_mem_usedBy h⟩

/-- Type errors are those of reduction, in cells of the grid. -/
theorem valueAt_eq_eval_error_iff {c : Cell} {e : EvalError} :
    s.valueAt c = .error (.eval e) ↔
      ∃ j, s.extent.cell j = c ∧ (s.formula j).reduce s.bindings = .error e := by
  constructor
  · intro h
    by_cases hc : c ∈ s.extent
    · obtain ⟨j, rfl⟩ := Extent.exists_cell_eq hc
      rw [valueAt_of_formulaAt (s.formulaAt_cell j)] at h
      cases hr : (s.formula j).reduce s.bindings with
      | error e' =>
        rw [hr] at h
        cases h
        exact ⟨j, rfl, hr⟩
      | ok r => simp [hr] at h
    · simp [valueAt, formulaAt, Extent.index_of_not_mem hc, Except.map, bind, Except.bind] at h
  · rintro ⟨j, rfl, hr⟩
    rw [valueAt_of_formulaAt (s.formulaAt_cell j), hr]
    rfl

/-- A cell that reaches a circle has no value. -/
theorem exists_error_of_circle {j : Fin s.extent.size} {name : String}
    (hr : Reaches s.bindings (s.formula j) name)
    (hcircle : Relation.TransGen s.bindings.Edge name name) :
    ∃ e, s.valueAt (s.extent.cell j) = .error (.eval e) := by
  cases h : (s.formula j).reduce s.bindings with
  | error e => exact ⟨e, valueAt_eq_eval_error_iff.mpr ⟨j, rfl, h⟩⟩
  | ok r => exact absurd hcircle ((gives_of_reduce_eq_ok h).not_circle_of_reaches hr)

/-! ### Sheets whose builtins refer to nothing -/

section

variable (hb : ∀ name f, s.builtin? name = some f → f.refs = [])

include hb

theorem mem_usedBy_of_reaches {i j : Fin s.extent.size}
    (h : Reaches s.bindings (s.formula j) (s.extent.cell i).label) :
    s.extent.cell j ∈ s.usedBy (s.extent.cell i) := by
  have hrefs : ∀ name f, s.builtin? name = some f → ∀ next ∈ f.refs, ∀ i,
      next ≠ (s.extent.cell i).label := by
    intro name f hf next hnext
    rw [hb name f hf] at hnext
    cases hnext
  exact mem_usedBy_cell_iff.mpr (linked_of_reaches hrefs h j rfl)

theorem exists_label_of_circle {name : String}
    (h : Relation.TransGen s.bindings.Edge name name) : ∃ i, name = (s.extent.cell i).label := by
  obtain ⟨next, ⟨f, hf, hnext⟩, -⟩ := Relation.TransGen.head'_iff.mp h
  rcases resolve_cases hf with ⟨i, hi, -⟩ | ⟨hbuiltin, -⟩
  · exact ⟨i, hi⟩
  · rw [mem_dependencies, hb name f hbuiltin] at hnext
    cases hnext

/-- The name of a circular reference is that of a cell that uses itself, and the cell with the error is
one of its users. -/
theorem exists_self_user_of_circular (hs : s.Over .standard) {c : Cell} {name : String}
    (h : s.valueAt c = .error (.eval (.circular name))) :
    ∃ a ∈ s.extent, a.label = name ∧ a ∈ s.usedBy a ∧ c ∈ s.usedBy a := by
  obtain ⟨j, rfl, hreduce⟩ := valueAt_eq_eval_error_iff.mp h
  obtain ⟨hr, hcircle⟩ :=
    circle_of_reduce (fun _ => Catalog.neverCircular_of_mem_standard) hs.bindings (hs.1 j) hreduce
  obtain ⟨i, rfl⟩ := exists_label_of_circle hb hcircle
  obtain ⟨f, hf, hself⟩ := path_iff_reaches.mp hcircle
  obtain rfl := Option.some.inj ((resolve_label i).symm.trans hf)
  exact ⟨_, Extent.cell_mem i, rfl, mem_usedBy_of_reaches hb hself, mem_usedBy_of_reaches hb hr⟩

end

/-- A cell that uses itself shows a type error, and so does every cell that uses it.  If no builtin refers
to a name, a cell shows a circular reference only if it uses a cell that uses itself, and the reference is
that cell's name. -/
theorem valueAt_of_mem_usedBy_self (hs : s.Over .standard) :
    (∀ a ∈ s.extent, a ∈ s.usedBy a → (∃ e, s.valueAt a = .error (.eval e)) ∧
      ∀ c ∈ s.usedBy a, ∃ e, s.valueAt c = .error (.eval e)) ∧
    ((∀ name f, s.builtin? name = some f → f.refs = []) →
      ∀ c name, s.valueAt c = .error (.eval (.circular name)) →
        ∃ a ∈ s.extent, a.label = name ∧ a ∈ s.usedBy a ∧ c ∈ s.usedBy a) := by
  refine ⟨fun a ha hself => ?_, fun hb c name h => exists_self_user_of_circular hb hs h⟩
  obtain ⟨i, rfl⟩ := Extent.exists_cell_eq ha
  have hcircle := circle_of_mem_usedBy_self hself
  have herror : ∀ c ∈ s.usedBy (s.extent.cell i), ∃ e, s.valueAt c = .error (.eval e) := by
    intro c hc
    obtain ⟨j, rfl⟩ := exists_cell_of_mem_usedBy hc
    exact exists_error_of_circle (reaches_of_mem_usedBy hc) hcircle
  exact ⟨herror _ hself, herror⟩

/-- A row of three cells: the first leads to the second, and the other two stand for each other. -/
def hookRow : Sheet where
  read _ := .ok .blank
  extent := .oneByThree
  initial := .blank
  builtins := [("k", .const 2)]
  cells := #v[.ref "B0", .ref "C0", .app .plus [.ref "B0", .ref "k"]]

theorem hookRow_errors :
    (∃ e, hookRow.valueAt ⟨0, 2⟩ = .error (.eval e)) ∧
      hookRow.valueAt ⟨0, 0⟩ = .error (.eval (.circular "B0")) ∧
      ∃ a ∈ hookRow.extent, a.label = "B0" ∧ a ∈ hookRow.usedBy a ∧ ⟨0, 0⟩ ∈ hookRow.usedBy a := by
  have hB : hookRow.bindings.find? "B0" = some (.ref "C0") := rfl
  have hC : hookRow.bindings.find? "C0" = some (.app .plus [.ref "B0", .ref "k"]) := rfl
  have hbuiltin : ∀ name f, hookRow.builtin? name = some f → f = .const 2 := by
    intro name f hf
    have hmem : (name, f) ∈ [("k", Formula.const 2)] := Bindings.mem_of_lookup_eq_some hf
    simp_all
  have hcells : ∀ i : Fin 3, (hookRow.formula i).Over .standard := by
    intro i
    match i with
    | 0 => show (Formula.ref "B0").Over .standard; simp [Formula.Over]
    | 1 => show (Formula.ref "C0").Over .standard; simp [Formula.Over]
    | 2 =>
      show (Formula.app .plus [.ref "B0", .ref "k"]).Over .standard
      simp [Formula.Over, Catalog.ops_standard]
  have hover : hookRow.Over .standard :=
    ⟨hcells, fun name f hf => by simp [hbuiltin name f hf, Formula.Over]⟩
  have hrefs : ∀ name f, hookRow.builtin? name = some f → f.refs = [] :=
    fun name f hf => by simp [hbuiltin name f hf]
  have hvalue : hookRow.valueAt ⟨0, 0⟩ = .error (.eval (.circular "B0")) := by
    refine valueAt_eq_eval_error_iff.mpr ⟨⟨0, by decide⟩, rfl, ?_⟩
    show (Formula.ref "B0").reduce hookRow.bindings = _
    simp [reduce, reduceOn_ref, reduceOn_app, demandAll_cons, hB, hC]
  obtain ⟨hself, hcause⟩ := valueAt_of_mem_usedBy_self hover
  obtain ⟨a, ha, hlabel, hauses, huses⟩ := hcause hrefs _ _ hvalue
  have hlast : hookRow.formulaAt ⟨0, 2⟩ = .ok (.app .plus [.ref "B0", .ref "k"]) := rfl
  have hlastUses : ⟨0, 2⟩ ∈ hookRow.usedBy a := by
    rw [mem_usedBy_iff_bare ha hlast, hlabel]
    exact .here (by simp)
  exact ⟨(hself a ha hauses).2 _ hlastUses, hvalue, a, ha, hlabel, hauses, huses⟩

end FormulaGrid.Sheet
