import FormulaGrid.Formula.Basic
import FormulaGrid.Text.Decimal

/-!
# Formula.Render — formulas as text

The text of a formula follows the styles of its operations.  Parentheses stand around an operand
that is not written as a call, so the grouping of operators can be read off.
-/

namespace FormulaGrid.Formula

/-- Whether parentheses stand around this formula as an operand. -/
def needsParens : Formula → Bool
  | app op _ => op.style != .call
  | _ => false

/-- Text in parentheses. -/
def parens (cs : List Char) : List Char := '(' :: (cs ++ [')'])

/-- Texts with a comma and a space between them. -/
def commas (texts : List (List Char)) : List Char := [',', ' '].intercalate texts

/-- A formula as the operand of an operator, given its text. -/
def operand (f : Formula) (cs : List Char) : List Char := if f.needsParens then parens cs else cs

/-- An operation over operands: the name before a sole one, or between each two. -/
def between (name : List Char) : List (List Char) → List Char
  | [only] => name ++ only
  | operands => (' ' :: (name ++ [' '])).intercalate operands

mutual

/-- The characters of a formula's text. -/
def chars : Formula → List Char
  | blank => []
  | const n => Decimal.ofInt64 n
  | ref name => name.toList
  | app op args =>
    match op.style with
    | .call => op.name.toList ++ parens (commas (charsAll args))
    | .list => commas (charsAll args)
    | .between => between op.name.toList (args.zipWith operand (charsAll args))

/-- The texts of several formulas. -/
def charsAll : List Formula → List (List Char)
  | [] => []
  | f :: fs => chars f :: charsAll fs

end

/-- A formula as text. -/
def render (f : Formula) : String := String.ofList f.chars

@[simp] theorem toList_render (f : Formula) : f.render.toList = f.chars := String.toList_ofList

theorem charsAll_eq_map (fs : List Formula) : charsAll fs = fs.map chars := by
  induction fs with
  | nil => rfl
  | cons f fs ih => rw [charsAll, ih, List.map_cons]

@[simp] theorem chars_blank : blank.chars = [] := by simp only [chars]
@[simp] theorem chars_const (n : Int64) : (const n).chars = Decimal.ofInt64 n := by
  simp only [chars]
@[simp] theorem chars_ref (name : String) : (ref name).chars = name.toList := by
  simp only [chars]

theorem zipWith_operand (fs : List Formula) :
    fs.zipWith operand (fs.map chars) = fs.map fun f => f.operand f.chars := by
  induction fs with
  | nil => rfl
  | cons f fs ih => rw [List.map_cons, List.zipWith_cons_cons, ih, List.map_cons]

theorem chars_app (op : Operation) (args : List Formula) :
    (app op args).chars =
      match op.style with
      | .call => op.name.toList ++ parens (commas (args.map chars))
      | .list => commas (args.map chars)
      | .between => between op.name.toList (args.map fun f => f.operand f.chars) := by
  rw [chars, charsAll_eq_map, zipWith_operand]

end FormulaGrid.Formula
