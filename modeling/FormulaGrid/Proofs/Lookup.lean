import FormulaGrid.Proofs.Contents
import FormulaGrid.Proofs.Locality
import FormulaGrid.Proofs.Naming
import Mathlib.Data.List.FinRange

/-!
# Proofs.Lookup — names are looked up as in a table

A sheet decodes a name when it is asked for one and never writes its bindings out.  `Sheet.table` does: all
builtins, and then all cells under their names, where later entries replace earlier ones.  Both give the same
formulas (`find?_table`), so the values of cells are those under the table (`resolve_eq_table`).
-/

namespace FormulaGrid

namespace Bindings

/-! ### Entries with different names -/

theorem lookup_eq_some_iff {entries : List (String × Formula)} (h : (entries.map Prod.fst).Nodup)
    {name : String} {f : Formula} : entries.lookup name = some f ↔ (name, f) ∈ entries := by
  refine ⟨mem_of_lookup_eq_some, fun hm => ?_⟩
  induction entries with
  | nil => cases hm
  | cons entry entries ih =>
    rw [List.map_cons, List.nodup_cons] at h
    rw [List.lookup_cons]
    rcases List.mem_cons.mp hm with rfl | hm
    · rw [beq_self_eq_true]
    · have hne : name ≠ entry.1 := fun e => h.1 (e ▸ List.mem_map_of_mem hm)
      rw [beq_false_of_ne hne]
      exact ih h.2 hm

theorem lookup_reverse {entries : List (String × Formula)} (h : (entries.map Prod.fst).Nodup)
    (name : String) : entries.reverse.lookup name = entries.lookup name := by
  have hreverse : (entries.reverse.map Prod.fst).Nodup := by
    rwa [List.map_reverse, List.nodup_reverse]
  ext f
  rw [lookup_eq_some_iff hreverse, lookup_eq_some_iff h, List.mem_reverse]

theorem mem_of_mem_latest {entries : List (String × Formula)} {entry : String × Formula}
    (h : entry ∈ latest entries) : entry ∈ entries := by
  induction entries with
  | nil => cases h
  | cons first entries ih =>
    rw [latest] at h
    split at h
    next => exact .tail _ (ih h)
    next => exact (List.mem_cons.mp h).elim (fun e => e ▸ .head _) fun h => .tail _ (ih h)

theorem nodup_latest (entries : List (String × Formula)) : ((latest entries).map Prod.fst).Nodup := by
  induction entries with
  | nil => exact List.nodup_nil
  | cons entry entries ih =>
    rw [latest]
    split
    next => exact ih
    next h =>
      refine List.nodup_cons.mpr ⟨fun hm => h ?_, ih⟩
      obtain ⟨other, hother, e⟩ := List.mem_map.mp hm
      exact List.mem_map.mpr ⟨other, mem_of_mem_latest hother, e⟩

/-- Entries that are put after others replace them. -/
theorem find?_ofList_append (entries more : List (String × Formula)) (name : String) :
    (ofList (entries ++ more)).find? name =
      (more.reverse.lookup name).or (entries.reverse.lookup name) := by
  show (latest (entries ++ more)).lookup name = _
  rw [lookup_latest, List.reverse_append, List.lookup_append]

end Bindings

namespace Sheet

open Formula

variable {s : Sheet}

/-- All cells under their names. -/
def named (s : Sheet) : List (String × Formula) := s.toList.map fun (a, f) => (a.label, f)

/-- The bindings of a sheet written out: all builtins, overlaid with all cells under their names. -/
def table (s : Sheet) : Bindings := .ofList (s.builtins ++ s.named)

/-! ### Names of cells -/

theorem indexOf_eq_ok_iff {name : String} {i : Fin s.extent.size} :
    s.indexOf name = .ok i ↔ name = (s.extent.cell i).label :=
  ⟨s.eq_label_of_indexOf, fun h => h ▸ indexOf_label i⟩

theorem mem_named_iff {name : String} {f : Formula} :
    (name, f) ∈ s.named ↔ ∃ i, name = (s.extent.cell i).label ∧ f = s.formula i := by
  simp [named, toList, eq_comm]

theorem nodup_named (s : Sheet) : (s.named.map Prod.fst).Nodup := by
  have hkeys : s.named.map Prod.fst =
      (List.finRange s.extent.size).map fun i => (s.extent.cell i).label := by
    simp [named, toList, Function.comp_def]
  rw [hkeys]
  exact (List.nodup_finRange _).map fun i j h => label_injective h

theorem lookup_named (s : Sheet) (name : String) :
    s.named.reverse.lookup name = (s.indexOf name).toOption.map s.formula := by
  rw [Bindings.lookup_reverse s.nodup_named]
  ext f
  simp only [Bindings.lookup_eq_some_iff s.nodup_named, mem_named_iff, Option.map_eq_some_iff,
    Except.toOption_eq_some_iff, indexOf_eq_ok_iff]
  exact exists_congr fun i => and_congr_right fun _ => eq_comm

theorem resolve_of_not_mem {name : String} (h : ∀ a, Cell.parse name = .ok a → a ∉ s.extent) :
    s.resolve name = s.builtin? name := by
  cases hi : s.indexOf name with
  | ok i => exact absurd (s.eq_label_of_indexOf hi) (ne_label_of_parse h i)
  | error e => rw [resolve, hi]

/-- The sheet and its table give the same formula for every name. -/
theorem find?_table (h : (s.builtins.map Prod.fst).Nodup) (name : String) :
    s.table.find? name = s.resolve name := by
  rw [table, Bindings.find?_ofList_append, lookup_named, Bindings.lookup_reverse h, resolve]
  cases s.indexOf name with
  | ok i => rfl
  | error e => rfl

theorem nodup_builtins_run {read : String → Except ParseError Formula} {o : SheetOptions}
    (hs : create read o = .ok s) (edits : List Edit) :
    ((s.run edits).builtins.map Prod.fst).Nodup := by
  obtain ⟨-, -, -, hbuiltins⟩ := frame_run s edits
  obtain ⟨-, -, -, hlatest, -⟩ := of_create hs
  rw [hbuiltins, hlatest]
  exact Bindings.nodup_latest _

/-- After any edits of a sheet that was made from options, a name stands for what the table says.  A text that
names no cell of the extent stands for the builtin of that name, the name of such a cell for the formula in
it, and the value of the cell is that of its formula under the table. -/
theorem resolve_eq_table {read : String → Except ParseError Formula} {o : SheetOptions}
    (hs : create read o = .ok s) (edits : List Edit) :
    (∀ name, (s.run edits).resolve name = (s.run edits).table.find? name) ∧
    (∀ name, (∀ a, Cell.parse name = .ok a → a ∉ s.extent) →
      (s.run edits).resolve name = (s.run edits).builtin? name) ∧
    ∀ a ∈ s.extent, ∃ name f, a.name = .ok name ∧ (s.run edits).formulaAt a = .ok f ∧
      (s.run edits).resolve name = some f ∧
      (s.run edits).valueAt a = (f.reduce (s.run edits).table).mapError .eval := by
  have htable := find?_table (nodup_builtins_run hs edits)
  obtain ⟨-, hextent, -, -⟩ := frame_run s edits
  rw [← hextent]
  refine ⟨fun name => (htable name).symm, fun name h => resolve_of_not_mem h, fun a ha => ?_⟩
  obtain ⟨i, rfl⟩ := Extent.exists_cell_eq ha
  have hname := Cell.name_eq_ok_iff_label.mpr ⟨Extent.column_lt_letters ha, rfl⟩
  refine ⟨_, _, hname, formulaAt_cell _ i, resolve_label i, ?_⟩
  have hreduce : ((s.run edits).formula i).reduce (s.run edits).bindings =
      ((s.run edits).formula i).reduce (s.run edits).table :=
    reduce_congr fun name _ => (htable name).symm
  rw [valueAt_of_formulaAt (formulaAt_cell _ i), hreduce]

/-- A row of two cells, with builtins under the name of a cell and under two other names. -/
def shadowRow : Sheet where
  read _ := .ok .blank
  extent := .oneByTwo
  initial := .blank
  builtins := [("A0", .const 1), ("A1", .const 7), ("A00", .const 9)]
  cells := Vector.replicate _ .blank

theorem shadowRow_names :
    (shadowRow.run [.clear ⟨0, 1⟩]).resolve "A00" = some (.const 9) ∧
      (shadowRow.run [.clear ⟨0, 1⟩]).resolve "A1" = some (.const 7) ∧
      ∃ f, (shadowRow.run [.clear ⟨0, 1⟩]).formulaAt ⟨0, 0⟩ = .ok f ∧
        (shadowRow.run [.clear ⟨0, 1⟩]).resolve "A0" = some f := by
  obtain ⟨-, hbuiltin, hcell⟩ := resolve_eq_table (o := ⟨1, 2, .blank, shadowRow.builtins⟩)
    (s := shadowRow) rfl [.clear ⟨0, 1⟩]
  have hzero : ∀ a, Cell.parse "A00" = .ok a → a ∉ shadowRow.extent := by
    intro a ha
    cases ha
  have hbelow : ∀ a, Cell.parse "A1" = .ok a → a ∉ shadowRow.extent := by
    intro a ha
    cases ha
    decide
  refine ⟨(hbuiltin _ hzero).trans rfl, (hbuiltin _ hbelow).trans rfl, ?_⟩
  obtain ⟨name, f, hname, hf, hresolve, -⟩ := hcell ⟨0, 0⟩ (by decide)
  cases hname
  exact ⟨f, hf, hresolve⟩

end Sheet

end FormulaGrid
