import FormulaGrid.Cell.Basic
import FormulaGrid.Text.Decimal

/-!
# Cell.Name — a letter and a row number

The name of a cell is the letter of its column, `A` to `Z`, followed by the decimal form of its
row.  `Cell.parse` accepts the names of cells and no other text (`parse_eq_ok`, `parse_label`).
-/

namespace FormulaGrid.Cell

/-- The number of columns that have a letter. -/
def letters : UInt16 := 26

/-- The letter of a column, for a column that has one. -/
def letter (column : UInt16) : Char := Char.ofNat (65 + column.toNat)

/-- The letter of a column, if it has one. -/
def letterOf (column : UInt16) : Except AddressError Char :=
  if column < letters then .ok (letter column) else .error (.columnLimit column)

/-- The column of a letter. -/
def columnOf (c : Char) : Except AddressError UInt16 :=
  if c.isUpper then .ok (UInt16.ofNat (c.toNat - 65)) else .error (.invalidName (.letter c))

/-- The name of a cell, for a cell that has one. -/
def label (a : Cell) : String := String.ofList (letter a.column :: Decimal.ofNat a.row.toNat)

/-- The name of a cell, if its column has a letter. -/
def name (a : Cell) : Except AddressError String :=
  if a.column < letters then .ok a.label else .error (.columnLimit a.column)

/-- The row number written at the end of `name`. -/
def rowOf (name : String) (digits : List Char) : Except AddressError UInt32 :=
  if digits = [] then .error (.invalidName (.noRow name))
  else if ¬digits.all Char.isDigit then .error (.invalidName (.badRow name))
  else if digits.head? = some '0' ∧ digits.length ≠ 1 then
    .error (.invalidName (.leadingZero name))
  else if Decimal.toNat digits < UInt32.size then .ok (UInt32.ofNat (Decimal.toNat digits))
  else .error (.invalidName (.rowTooLarge name))

/-- The cell with a name. -/
def parse (name : String) : Except AddressError Cell :=
  match name.toList with
  | [] => .error (.invalidName .empty)
  | c :: digits => do
    let column ← columnOf c
    let row ← rowOf name digits
    return ⟨row, column⟩

/-! ### Reading is the inverse of writing -/

theorem letter_isUpper {column : UInt16} (h : column < letters) :
    (letter column).toNat = 65 + column.toNat ∧ (letter column).isUpper = true := by
  have hc : column.toNat < 26 := h
  have hv : (65 + column.toNat).isValidChar := .inl (by omega)
  have ht : (letter column).toNat = 65 + column.toNat := by
    unfold letter Char.ofNat
    rw [dif_pos hv]
    rfl
  have hu : 65 ≤ (letter column).toNat ∧ (letter column).toNat ≤ 90 := by omega
  exact ⟨ht, decide_eq_true hu⟩

theorem columnOf_letter {column : UInt16} (h : column < letters) :
    columnOf (letter column) = .ok column := by
  obtain ⟨ht, hu⟩ := letter_isUpper h
  simp [columnOf, hu, ht]

theorem columnOf_eq_ok {c : Char} {column : UInt16} (h : columnOf c = .ok column) :
    column < letters ∧ c = letter column := by
  unfold columnOf at h
  split at h
  next hu =>
    cases h
    obtain ⟨h1, h2⟩ : 65 ≤ c.toNat ∧ c.toNat ≤ 90 := of_decide_eq_true hu
    have ht : (UInt16.ofNat (c.toNat - 65)).toNat = c.toNat - 65 :=
      UInt16.toNat_ofNat_of_lt' (by simp [UInt16.size]; omega)
    refine ⟨?_, ?_⟩
    · rw [UInt16.lt_iff_toNat_lt, ht]
      change _ < 26
      omega
    · rw [letter, ht, show 65 + (c.toNat - 65) = c.toNat by omega, Char.ofNat_toNat]
  next => cases h

theorem rowOf_ofNat (name : String) (row : UInt32) :
    rowOf name (Decimal.ofNat row.toNat) = .ok row := by
  have hd : (Decimal.ofNat row.toNat).all Char.isDigit = true :=
    List.all_eq_true.2 fun _ => Decimal.isDigit_of_mem_ofNat
  have hz : ¬((Decimal.ofNat row.toNat).head? = some '0' ∧
      (Decimal.ofNat row.toNat).length ≠ 1) := by
    rintro ⟨h0, h1⟩
    by_cases h : row.toNat = 0
    · simp [h, Decimal.ofNat] at h1
    · exact Decimal.head?_ofNat_ne_zero (Nat.pos_of_ne_zero h) h0
  unfold rowOf
  rw [if_neg (Decimal.ofNat_ne_nil _), if_neg (by simp [hd]), if_neg hz, Decimal.toNat_ofNat,
    if_pos row.toNat_lt, UInt32.ofNat_toNat]

theorem rowOf_eq_ok {name : String} {digits : List Char} {row : UInt32}
    (h : rowOf name digits = .ok row) : digits = Decimal.ofNat row.toNat := by
  unfold rowOf at h
  split at h; cases h
  split at h; cases h
  split at h; cases h
  split at h
  next hne hd hz hlt =>
    cases h
    rw [UInt32.toNat_ofNat_of_lt' hlt]
    cases digits with
    | nil => exact absurd rfl hne
    | cons c ds =>
      refine (Decimal.ofNat_toNat (by simpa using hd) fun hc => ?_).symm
      simpa [hc] using hz
  next => cases h

/-- A text that is read as a cell is the name of that cell. -/
theorem parse_eq_ok {s : String} {a : Cell} (h : parse s = .ok a) :
    a.column < letters ∧ s = a.label := by
  unfold parse at h
  split at h
  next => cases h
  next c digits e =>
    cases hc : columnOf c with
    | error => simp [hc, bind, Except.bind] at h
    | ok column =>
      cases hr : rowOf s digits with
      | error => simp [hc, hr, bind, Except.bind] at h
      | ok row =>
        simp only [hc, hr, bind, Except.bind, pure, Except.pure, Except.ok.injEq] at h
        subst h
        obtain ⟨hlt, rfl⟩ := columnOf_eq_ok hc
        refine ⟨hlt, ?_⟩
        rw [label, ← rowOf_eq_ok hr, ← e, String.ofList_toList]

/-- The name of a cell is read as that cell. -/
theorem parse_label {a : Cell} (h : a.column < letters) : parse a.label = .ok a := by
  simp [parse, label, columnOf_letter h, rowOf_ofNat, bind, Except.bind, pure, Except.pure]

end FormulaGrid.Cell
