import FormulaGrid.Formula.Basic
import FormulaGrid.Operation.Statistics

/-!
# Catalog — operations by name

A catalog holds at most one operation for each name up to case, the one registered last
(`find?_register`).  Nodes of formulas are built from the operations of a catalog.
-/

namespace FormulaGrid

/-- Operations that are told apart by their names up to case. -/
structure Catalog where
  ops : List Operation
  distinct : (ops.map Operation.key).Nodup

namespace Catalog

/-- The catalog without operations. -/
def empty : Catalog := ⟨[], List.nodup_nil⟩

/-- The number of operations. -/
def size (c : Catalog) : Nat := c.ops.length

/-- The operation with a name, in any case. -/
def find? (c : Catalog) (name : String) : Option Operation :=
  let key := upper name
  c.ops.find? fun op => op.key == key

/-- The catalog with `op`, in place of any operation of the same name. -/
def register (c : Catalog) (op : Operation) : Catalog where
  ops := op :: c.ops.filter fun o => o.key != op.key
  distinct := by
    rw [List.map_cons, List.nodup_cons]
    refine ⟨fun h => ?_, c.distinct.sublist (List.filter_sublist.map _)⟩
    obtain ⟨o, ho, e⟩ := List.mem_map.1 h
    simp [e] at ho

/-- The operations of a list, registered in order. -/
def registerAll (c : Catalog) (ops : List Operation) : Catalog := ops.foldl register c

/-- The four operations of arithmetic, the comparison, the two averages, and the comma. -/
def standard : Catalog :=
  empty.registerAll [.plus, .minus, .times, .divide, .less, .mean, .median, .comma]

/-- A node of the operation with the given name. -/
def build (c : Catalog) (name : String) (args : List Formula) : Except BuildError Formula :=
  match c.find? name with
  | some op => Formula.make op args
  | none => .error (.unknown name)

theorem ops_standard :
    standard.ops = [.comma, .median, .mean, .less, .divide, .times, .minus, .plus] := rfl

@[simp] theorem find?_empty (name : String) : empty.find? name = none := rfl

theorem find?_register (c : Catalog) (op : Operation) (name : String) :
    (c.register op).find? name = if op.key = upper name then some op else c.find? name := by
  by_cases h : op.key = upper name
  · simp [find?, register, h]
  · simp only [find?, register, List.find?_cons, beq_false_of_ne h, List.find?_filter, if_neg h]
    congr 1
    funext o
    by_cases e : o.key = upper name <;> simp [e, Ne.symm h]

end Catalog

end FormulaGrid
