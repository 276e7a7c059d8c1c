import FormulaGrid.Builder.Grammar
import FormulaGrid.Catalog.Basic

/-!
# Catalog.Builder — formula text over a catalog

The builder of a catalog makes formulas.  A sole comma node among the arguments stands for its own
arguments, and a span without a name is what it encloses, or a comma node when it encloses several
parts.
-/

namespace FormulaGrid.Catalog

/-- The arguments inside a sole comma node, or the arguments themselves. -/
def unpack : List Formula → List Formula
  | [.app op args] => if op.name = Symbol.comma.name then args else [.app op args]
  | args => args

/-- A node of the operation with the given name, or of a span when there is no name. -/
def combine (c : Catalog) (name : String) (args : List Formula) : Except BuildError Formula :=
  let args := unpack args
  if name = "" then
    match args with
    | [only] => .ok only
    | args => c.build Symbol.comma.name args
  else c.build name args

/-- The builder that makes formulas of a catalog's operations. -/
def builder (c : Catalog) : Builder Formula := ⟨.blank, .const, .ref, c.combine⟩

/-- The formula of a text over a catalog. -/
def parse (c : Catalog) (text : String) : Except ParseError Formula := c.builder.parse text

end FormulaGrid.Catalog
