import FormulaGrid.Text.Uppercase.Table

/-!
# Text.Uppercase — the upper-case form of a text

Every character is replaced by its full Unicode upper-case form, which may be several characters
long.  Texts with the same form are names of the same operation.
-/

namespace FormulaGrid

/-- The upper-case form of a character. -/
def upperChar (c : Char) : List Char :=
  if c.toNat < 0x80 then [c.toUpper]
  else
    match caseExpansions.lookup c.toNat with
    | some form => form.map Char.ofNat
    | none =>
      match caseRuns.find? (·.holds c.toNat) with
      | some run => [Char.ofNat (c.toNat + run.shift).toNat]
      | none => [c]

/-- The upper-case form of a text. -/
def upper (s : String) : String := String.ofList (s.toList.flatMap upperChar)

theorem upperChar_ascii {c : Char} (h : c.toNat < 0x80) : upperChar c = [c.toUpper] := if_pos h

@[simp] theorem toList_upper (s : String) : (upper s).toList = s.toList.flatMap upperChar :=
  String.toList_ofList

end FormulaGrid
