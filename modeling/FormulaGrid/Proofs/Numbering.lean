import FormulaGrid.Proofs.Lookup
import FormulaGrid.Sheet.Usage

/-!
# Proofs.Numbering — cells are numbered in their order

The rows of a sheet, put one behind the other, are its cells by number (`Extent.names_eq`): the quotient and
the remainder of a number by the width are the row and the column of its cell.  So numbers and cells of the
extent are one to one and in one order, and every cell stands at its number in the list of all names
(`Sheet.create_numbered`).
-/

namespace List

/-- Numbers are counted in groups of one length. -/
theorem range_mul (m n : Nat) :
    range (m * n) = (range m).flatMap fun i => (range n).map fun j => i * n + j := by
  induction m with
  | zero => simp
  | succ m ih => rw [Nat.succ_mul, range_add, ih, range_succ, flatMap_append, flatMap_singleton]

end List

namespace FormulaGrid

namespace Extent

variable {e : Extent}

/-- There is an extent of every size with a row and a column and a letter for each column. -/
theorem exists_check {rows : UInt32} {columns : UInt16} (hrows : 0 < rows) (hcolumns : 0 < columns)
    (hle : columns ≤ Cell.letters) : ∃ e, check rows columns = .ok e := by
  have hpos : ¬(rows = 0 ∨ columns = 0) :=
    not_or.mpr ⟨UInt32.pos_iff_ne_zero.mp hrows, UInt16.pos_iff_ne_zero.mp hcolumns⟩
  rw [check, dif_neg hpos, dif_neg (UInt16.not_lt.mpr hle)]
  exact ⟨_, rfl⟩

theorem exists_index_iff {a : Cell} : (∃ i, e.index a = .ok i) ↔ a ∈ e := by
  refine ⟨?_, fun h => (exists_cell_eq h).imp fun i hi => index_eq_ok_iff.mpr hi⟩
  rintro ⟨i, hi⟩
  exact index_eq_ok_iff.mp hi ▸ cell_mem i

/-- Every cell of a row has a name. -/
theorem name_of_lt {row column : Nat} (hcolumn : column < e.columns.toNat) :
    Cell.name ⟨UInt32.ofNat row, UInt16.ofNat column⟩ =
      .ok (Cell.label ⟨UInt32.ofNat row, UInt16.ofNat column⟩) := by
  refine Cell.name_eq_ok_iff_label.mpr ⟨UInt16.lt_of_lt_of_le ?_ e.columns_le, rfl⟩
  rw [UInt16.lt_iff_toNat_lt, UInt16.toNat_ofNat_of_lt' (Nat.lt_trans hcolumn e.columns.toNat_lt)]
  exact hcolumn

theorem cells_eq_range (e : Extent) :
    e.cells = (List.range e.size).map fun n =>
      ⟨UInt32.ofNat (n / e.columns.toNat), UInt16.ofNat (n % e.columns.toNat)⟩ := by
  rw [cells, ← List.map_coe_finRange_eq_range, List.map_map]
  rfl

/-- The rows one behind the other are the cells by number. -/
theorem cells_eq_rows (e : Extent) :
    e.cells = (List.range e.rows.toNat).flatMap fun row =>
      (List.range e.columns.toNat).map fun column => ⟨UInt32.ofNat row, UInt16.ofNat column⟩ := by
  rw [cells_eq_range, size, List.range_mul, List.map_flatMap]
  refine List.flatMap_congr fun row _ => ?_
  rw [List.map_map]
  refine List.map_congr_left fun column hcolumn => ?_
  obtain ⟨hdiv, hmod⟩ := div_mod_columns row (List.mem_range.mp hcolumn)
  simp only [Function.comp_apply, hdiv, hmod]

/-- Every cell of an extent has a name, and the names are written out in the order of the cells. -/
theorem names_eq (e : Extent) : e.names = .ok (e.cells.map Cell.label) := by
  have hrow (row : Nat) :
      ((List.range e.columns.toNat).mapM fun column =>
        Cell.name ⟨UInt32.ofNat row, UInt16.ofNat column⟩) =
      .ok ((List.range e.columns.toNat).map fun column =>
        Cell.label ⟨UInt32.ofNat row, UInt16.ofNat column⟩) :=
    Except.mapM_eq_ok_map fun column hcolumn => name_of_lt (List.mem_range.mp hcolumn)
  rw [names, Except.mapM_eq_ok_map fun row _ => hrow row, cells_eq_rows, List.map_flatMap, List.flatMap_def]
  simp only [List.map_map]
  rfl

theorem getElem?_cells (i : Fin e.size) : e.cells[i.val]? = some (e.cell i) := by
  simp [cells]

theorem index_lt_index {a b : Cell} {i j : Fin e.size} (hi : e.index a = .ok i)
    (hj : e.index b = .ok j) : i < j ↔ a < b := by
  rw [← index_eq_ok_iff.mp hi, ← index_eq_ok_iff.mp hj, cell_lt_cell]

end Extent

namespace Sheet

theorem exists_create (read : String → Except ParseError Formula) {o : SheetOptions}
    (hrows : 0 < o.rows) (hcolumns : 0 < o.columns) (hletters : o.columns ≤ Cell.letters) :
    ∃ s, create read o = .ok s := by
  obtain ⟨e, he⟩ := Extent.exists_check hrows hcolumns hletters
  exact ⟨_, Except.bind_eq_ok_iff.mpr ⟨e, he, rfl⟩⟩

theorem name_nodes (s : Sheet) : s.nodes.map Node.name = s.extent.cells.map Cell.label := by
  simp [nodes, toList, Extent.cells]

theorem nodup_labels (s : Sheet) : (s.extent.cells.map Cell.label).Nodup := by
  rw [Extent.cells, List.map_map]
  exact (List.nodup_finRange _).map fun i j h => label_injective h

/-- There is a sheet of every size with a row and a column and a letter for each column.  Its numbers, as many
as rows times columns, and the cells with a smaller row and column are one to one, in both directions and in
one order, and no other cell has a number.  The names of its cells, written out row by row, differ from each
other, and each stands at the number of its cell. -/
theorem create_numbered (read : String → Except ParseError Formula) {o : SheetOptions}
    (hrows : 0 < o.rows) (hcolumns : 0 < o.columns) (hletters : o.columns ≤ 26) :
    ∃ s names, create read o = .ok s ∧ s.extent.names = .ok names ∧ s.nodes.map Node.name = names ∧
      s.extent.size = o.rows.toNat * o.columns.toNat ∧
      (∀ a i, s.extent.index a = .ok i ↔ s.extent.cell i = a) ∧
      (∀ a, (∃ i, s.extent.index a = .ok i) ↔ a.row < o.rows ∧ a.column < o.columns) ∧
      (∀ a, ¬(a.row < o.rows ∧ a.column < o.columns) →
        s.extent.index a = .error (.outOfBounds a o.rows o.columns)) ∧
      (∀ a b i j, s.extent.index a = .ok i → s.extent.index b = .ok j → (i < j ↔ a < b)) ∧
      names.length = s.extent.size ∧ names.Nodup ∧
      ∀ a i, s.extent.index a = .ok i → ∃ name, a.name = .ok name ∧ names[i.val]? = some name := by
  obtain ⟨s, hs⟩ := exists_create read hrows hcolumns hletters
  obtain ⟨erows, ecolumns, -⟩ := of_create hs
  rw [← erows, ← ecolumns]
  refine ⟨s, _, hs, s.extent.names_eq, s.name_nodes, rfl, fun a i => Extent.index_eq_ok_iff,
    fun a => Extent.exists_index_iff, fun a h => Extent.index_of_not_mem h,
    fun a b i j => Extent.index_lt_index, by simp [Extent.cells], s.nodup_labels, fun a i hi => ?_⟩
  obtain rfl := Extent.index_eq_ok_iff.mp hi
  refine ⟨_, Cell.name_eq_ok_iff_label.mpr ⟨Extent.column_lt_letters (Extent.cell_mem i), rfl⟩, ?_⟩
  rw [List.getElem?_map, Extent.getElem?_cells]
  rfl

/-- The largest sheet is numbered to its last cell. -/
theorem largest_numbered :
    ∃ s names, create (fun _ => .ok .blank) ⟨4294967295, 26, .blank, []⟩ = .ok s ∧
      s.extent.names = .ok names ∧ names.length = 111669149670 ∧
      ∃ i, s.extent.index ⟨4294967294, 25⟩ = .ok i ∧ names[i.val]? = some "Z4294967294" := by
  obtain ⟨s, names, hs, hnames, -, hsize, -, hindex, -, -, hlength, -, hname⟩ :=
    create_numbered (fun _ => .ok .blank) (o := ⟨4294967295, 26, .blank, []⟩)
      (by decide) (by decide) (by decide)
  obtain ⟨i, hi⟩ := (hindex ⟨4294967294, 25⟩).mpr (by decide)
  obtain ⟨name, hlast, hget⟩ := hname _ i hi
  cases hlast
  exact ⟨s, names, hs, hnames, hlength.trans hsize, i, hi, hget⟩

end Sheet

end FormulaGrid
