/-!
# Operation.Arity — how many arguments an operation takes

An arity is a least count and possibly a greatest one.  A node is refused for an unknown operation
name or for a count outside the arity.
-/

namespace FormulaGrid

/-- The argument counts from `min` on, up to `max?` when there is one. -/
structure Arity where
  min : Nat
  max? : Option Nat
  deriving DecidableEq, Repr

namespace Arity

/-- One argument or more. -/
def oneOrMore : Arity := ⟨1, none⟩

/-- Whether `n` arguments are allowed. -/
def admits (a : Arity) (n : Nat) : Bool := decide (a.min ≤ n) && a.max?.all (n ≤ ·)

/-- The allowed counts in words. -/
def describe (a : Arity) : String :=
  match a.max? with
  | none => "at least " ++ a.min.repr
  | some m => if m = a.min then m.repr else a.min.repr ++ " to " ++ m.repr

@[simp] theorem admits_oneOrMore_iff {n : Nat} : oneOrMore.admits n = true ↔ 0 < n := by
  simp [admits, oneOrMore, Nat.succ_le_iff]

end Arity

/-- Why a node cannot be built. -/
inductive BuildError where
  /-- No operation has this name. -/
  | unknown (name : String)
  /-- The operation does not take this many arguments. -/
  | argumentCount (operation : String) (arity : Arity) (actual : Nat)
  deriving DecidableEq, Repr

/-- The wording of a refusal. -/
def BuildError.message : BuildError → String
  | unknown name => "Unknown function: " ++ name
  | argumentCount operation arity actual =>
    "Wrong number of arguments for " ++ operation ++ ": expected " ++ arity.describe ++ ", got " ++
      actual.repr

end FormulaGrid
