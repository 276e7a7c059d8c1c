import FormulaGrid.Cell.Name

/-!
# Sheet.Extent — the size of a sheet

An extent has at least one row and column, and no more columns than there are letters.  Its cells
are numbered row by row; `index` and `cell` go between cells and numbers (`index_cell`,
`index_eq_ok_iff`), and numbers are ordered as cells are (`number_lt_number`).
-/

namespace FormulaGrid

/-- A number of rows and of columns in which every cell has a name. -/
structure Extent where
  rows : UInt32
  columns : UInt16
  rows_pos : 0 < rows
  columns_pos : 0 < columns
  columns_le : columns ≤ Cell.letters

namespace Extent

/-- The extent of given numbers of rows and columns. -/
def check (rows : UInt32) (columns : UInt16) : Except AddressError Extent :=
  if h : rows = 0 ∨ columns = 0 then .error (.invalidDimensions rows columns)
  else if hc : Cell.letters < columns then .error (.columnLimit (columns - 1))
  else .ok {
    rows, columns
    rows_pos := UInt32.pos_iff_ne_zero.2 fun e => h (.inl e)
    columns_pos := UInt16.pos_iff_ne_zero.2 fun e => h (.inr e)
    columns_le := UInt16.not_lt.1 hc }

/-- The cells of an extent. -/
instance : Membership Cell Extent where
  mem e a := a.row < e.rows ∧ a.column < e.columns

theorem mem_iff {e : Extent} {a : Cell} : a ∈ e ↔ a.row < e.rows ∧ a.column < e.columns := Iff.rfl

instance (a : Cell) (e : Extent) : Decidable (a ∈ e) := decidable_of_iff' _ mem_iff

variable (e : Extent)

/-- The number of cells. -/
def size : Nat := e.rows.toNat * e.columns.toNat

/-- The number of a cell. -/
def number (a : Cell) : Nat := a.row.toNat * e.columns.toNat + a.column.toNat

variable {e}

theorem mem_iff_toNat {a : Cell} :
    a ∈ e ↔ a.row.toNat < e.rows.toNat ∧ a.column.toNat < e.columns.toNat := by
  rw [mem_iff, UInt32.lt_iff_toNat_lt, UInt16.lt_iff_toNat_lt]

theorem column_lt_letters {a : Cell} (h : a ∈ e) : a.column < Cell.letters :=
  UInt16.lt_of_lt_of_le h.2 e.columns_le

theorem number_lt_size {a : Cell} (h : a ∈ e) : e.number a < e.size := by
  obtain ⟨hr, hc⟩ := mem_iff_toNat.1 h
  have := Nat.mul_le_mul_right e.columns.toNat hr
  rw [Nat.succ_mul] at this
  unfold number size
  omega

variable (e)

/-- The number of a cell of the extent. -/
def index (a : Cell) : Except AddressError (Fin e.size) :=
  if h : a ∈ e then .ok ⟨e.number a, number_lt_size h⟩ else .error (.outOfBounds a e.rows e.columns)

/-- The cell with a number. -/
def cell (i : Fin e.size) : Cell :=
  ⟨UInt32.ofNat (i / e.columns.toNat), UInt16.ofNat (i % e.columns.toNat)⟩

/-- All cells, in order. -/
def cells : List Cell := (List.finRange e.size).map e.cell

/-- The names of all cells, written out row by row. -/
def names : Except AddressError (List String) := do
  let rows ← (List.range e.rows.toNat).mapM fun row =>
    (List.range e.columns.toNat).mapM fun column =>
      Cell.name ⟨UInt32.ofNat row, UInt16.ofNat column⟩
  return rows.flatten

/-! ### Cells and their numbers -/

variable {e}

theorem columns_toNat_pos : 0 < e.columns.toNat := UInt16.lt_iff_toNat_lt.1 e.columns_pos

theorem row_cell (i : Fin e.size) : (e.cell i).row.toNat = i / e.columns.toNat := by
  have h : i.val / e.columns.toNat < e.rows.toNat :=
    Nat.div_lt_of_lt_mul (Nat.mul_comm _ _ ▸ i.isLt)
  exact UInt32.toNat_ofNat_of_lt' (Nat.lt_trans h e.rows.toNat_lt)

theorem column_cell (i : Fin e.size) : (e.cell i).column.toNat = i % e.columns.toNat := by
  have h : i.val % e.columns.toNat < e.columns.toNat := Nat.mod_lt _ columns_toNat_pos
  exact UInt16.toNat_ofNat_of_lt' (Nat.lt_trans h e.columns.toNat_lt)

theorem cell_mem (i : Fin e.size) : e.cell i ∈ e := by
  rw [mem_iff_toNat, row_cell, column_cell]
  exact ⟨Nat.div_lt_of_lt_mul (Nat.mul_comm _ _ ▸ i.isLt), Nat.mod_lt _ columns_toNat_pos⟩

theorem number_cell (i : Fin e.size) : e.number (e.cell i) = i := by
  rw [number, row_cell, column_cell, Nat.mul_comm]
  exact Nat.div_add_mod _ _

@[simp] theorem index_cell (i : Fin e.size) : e.index (e.cell i) = .ok i := by
  simp only [index, cell_mem, dite_true, number_cell]

/-- A row and a column are the quotient and the remainder of their number. -/
theorem div_mod_columns (row : Nat) {column : Nat} (h : column < e.columns.toNat) :
    (row * e.columns.toNat + column) / e.columns.toNat = row ∧
      (row * e.columns.toNat + column) % e.columns.toNat = column := by
  rw [Nat.mul_comm row]
  constructor
  · rw [Nat.mul_add_div columns_toNat_pos, Nat.div_eq_of_lt h, Nat.add_zero]
  · rw [Nat.mul_add_mod, Nat.mod_eq_of_lt h]

theorem index_eq_ok_iff {a : Cell} {i : Fin e.size} : e.index a = .ok i ↔ e.cell i = a := by
  refine ⟨fun h => ?_, fun h => h ▸ index_cell i⟩
  unfold index at h
  split at h
  next ha =>
    cases h
    obtain ⟨-, hc⟩ := mem_iff_toNat.1 ha
    obtain ⟨hdiv, hmod⟩ := div_mod_columns a.row.toNat hc
    simp only [cell, number, hdiv, hmod, UInt32.ofNat_toNat, UInt16.ofNat_toNat]
  next => cases h

theorem exists_cell_eq {a : Cell} (h : a ∈ e) : ∃ i, e.cell i = a :=
  ⟨⟨e.number a, number_lt_size h⟩, index_eq_ok_iff.1 (dif_pos h)⟩

theorem index_of_not_mem {a : Cell} (h : a ∉ e) :
    e.index a = .error (.outOfBounds a e.rows e.columns) := dif_neg h

/-- Cells are numbered in their order. -/
theorem number_lt_number {a b : Cell} (ha : a ∈ e) (hb : b ∈ e) :
    e.number a < e.number b ↔ a < b := by
  obtain ⟨_, ha⟩ := mem_iff_toNat.1 ha
  obtain ⟨_, hb⟩ := mem_iff_toNat.1 hb
  rw [Cell.lt_iff, UInt32.lt_iff_toNat_lt, UInt16.lt_iff_toNat_lt, ← UInt32.toNat_inj]
  unfold number
  rcases Nat.lt_trichotomy a.row.toNat b.row.toNat with h | h | h
  · have := Nat.mul_le_mul_right e.columns.toNat h
    rw [Nat.succ_mul] at this
    omega
  · rw [h]
    omega
  · have := Nat.mul_le_mul_right e.columns.toNat h
    rw [Nat.succ_mul] at this
    omega

end Extent

end FormulaGrid
