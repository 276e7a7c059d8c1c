/-!
# Cell — places in a grid

A cell is a row and a column, both counted from zero.  Cells are ordered row by row, and within a
row from left to right.
-/

namespace FormulaGrid

/-- A row and a column. -/
structure Cell where
  row : UInt32
  column : UInt16
  deriving DecidableEq, Repr

namespace Cell

/-- Row by row, and within a row from left to right. -/
instance : LT Cell where
  lt a b := a.row < b.row ∨ a.row = b.row ∧ a.column < b.column

theorem lt_iff {a b : Cell} : a < b ↔ a.row < b.row ∨ a.row = b.row ∧ a.column < b.column :=
  Iff.rfl

instance (a b : Cell) : Decidable (a < b) := decidable_of_iff' _ lt_iff

end Cell

/-- Why a text is not the name of a cell. -/
inductive NameFault where
  | empty
  /-- A first character that is no capital letter. -/
  | letter (c : Char)
  | noRow (name : String)
  /-- A row with a character that is no digit. -/
  | badRow (name : String)
  | leadingZero (name : String)
  /-- A row that does not fit 32 bits. -/
  | rowTooLarge (name : String)
  deriving DecidableEq, Repr

/-- Why there is no such cell or grid. -/
inductive AddressError where
  | invalidName (fault : NameFault)
  /-- A column beyond the last letter. -/
  | columnLimit (column : UInt16)
  | outOfBounds (cell : Cell) (rows : UInt32) (columns : UInt16)
  | invalidDimensions (rows : UInt32) (columns : UInt16)
  deriving DecidableEq, Repr

/-- The wording of a fault in a name. -/
def NameFault.message : NameFault → String
  | empty => "empty name"
  | letter c => "invalid column letter '" ++ c.toString ++ "'"
  | noRow name => "no row number in '" ++ name ++ "'"
  | badRow name => "invalid row number in '" ++ name ++ "'"
  | leadingZero name => "leading zero in row number of '" ++ name ++ "'"
  | rowTooLarge name => "row number too large in '" ++ name ++ "'"

/-- The wording of an address error. -/
def AddressError.message : AddressError → String
  | invalidName fault => "Invalid cell name: " ++ fault.message
  | columnLimit column =>
    "Column index " ++ column.toNat.repr ++ " has no reference name (max: 25)"
  | outOfBounds cell rows columns =>
    "Cell (" ++ cell.row.toNat.repr ++ ", " ++ cell.column.toNat.repr ++ ") is outside a " ++
      rows.toNat.repr ++ "x" ++ columns.toNat.repr ++ " sheet"
  | invalidDimensions rows columns =>
    "Invalid sheet dimensions: " ++ rows.toNat.repr ++ "x" ++ columns.toNat.repr

end FormulaGrid
