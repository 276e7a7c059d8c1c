import FormulaGrid.Operation.Arity
import FormulaGrid.Token.Lexer

/-!
# Builder — what formula text is read into

A builder says how the four kinds of node are made.  The grammar makes nodes through a builder only,
so it does not depend on what the nodes are.
-/

namespace FormulaGrid

/-- Node construction for formula text. -/
structure Builder (α : Type) where
  /-- The node of no text at all. -/
  blank : α
  constant : Int64 → α
  reference : String → α
  /-- An operator or named span over its arguments; the empty name is a span without a name. -/
  apply : String → List α → Except BuildError α

/-- Why formula text has no node. -/
inductive ParseError where
  /-- The text, or the inside of a span, has no tokens. -/
  | lexical (e : LexError)
  /-- A constant that does not fit 64 bits. -/
  | constant (digits : String)
  /-- Operands next to each other. -/
  | noOperator (operands : List String)
  /-- A node that the builder refuses. -/
  | rejected (e : BuildError)
  deriving DecidableEq, Repr

/-- The wording of a parse error. -/
def ParseError.message : ParseError → String
  | lexical e => e.message
  | constant digits => "Invalid constant: " ++ digits
  | noOperator operands =>
    "Could not parse tokens: no operator between '" ++ "', '".intercalate operands ++ "'"
  | rejected e => e.message

end FormulaGrid
