import FormulaGrid.Sheet.Value

/-!
# Sheet.Edit — filling and clearing cells

A formula goes into a cell only if it can be reduced under the sheet as it is before the change.  An
edit that fails gives no new sheet.  Edits are also programs over a stored sheet, where an error does not
undo what was written before it.
-/

namespace FormulaGrid

/-- Why formula text does not go into a cell. -/
inductive EntryError where
  /-- The text is no formula. -/
  | unreadable (text : String) (cause : ParseError)
  | refused (e : SheetError)
  deriving DecidableEq, Repr

/-- The wording of an entry error. -/
def EntryError.message : EntryError → String
  | unreadable text _ => "Unable to parse: " ++ text
  | refused e => e.message

namespace Sheet

variable (s : Sheet)

/-- The sheet with a formula put into a cell. -/
def update (a : Cell) (f : Formula) : Except SheetError Sheet := do
  let i ← (s.extent.index a).mapError .address
  let _ ← (f.reduce s.bindings).mapError SheetError.eval
  return s.set i f

/-- The sheet with the formula of a text put into a cell. -/
def enter (a : Cell) (text : String) : Except EntryError Sheet := do
  let f ← (s.read text).mapError (.unreadable text)
  (s.update a f).mapError .refused

/-- The sheet with the initial formula put back into a cell. -/
def clear (a : Cell) : Except AddressError Sheet :=
  (s.extent.index a).map fun i => s.set i s.initial

/-! ### Edits in place -/

/-- Puts a formula into a cell of the stored sheet. -/
def updateInPlace (a : Cell) (f : Formula) : EStateM SheetError Sheet Unit := do
  let s ← get
  let i ← MonadExcept.ofExcept ((s.extent.index a).mapError .address)
  let _ ← MonadExcept.ofExcept ((f.reduce s.bindings).mapError SheetError.eval)
  MonadState.set (s.set i f)

/-- Puts the formula of a text into a cell of the stored sheet. -/
def enterInPlace (a : Cell) (text : String) : EStateM EntryError Sheet Unit := do
  let s ← get
  let f ← MonadExcept.ofExcept ((s.read text).mapError (.unreadable text))
  (updateInPlace a f).adaptExcept .refused

/-- Puts the initial formula back into a cell of the stored sheet. -/
def clearInPlace (a : Cell) : EStateM AddressError Sheet Unit := do
  let s ← get
  let i ← MonadExcept.ofExcept (s.extent.index a)
  MonadState.set (s.set i s.initial)

end Sheet

end FormulaGrid
