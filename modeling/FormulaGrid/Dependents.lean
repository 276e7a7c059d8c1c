import FormulaGrid.Formula.Basic

/-!
# Dependents — who uses a name

A node is a formula under a name of its own.  The dependents of a name are the nodes that use it,
and in turn the nodes that use one of their names.  They are found in passes over the nodes, the last
of which finds none.  Nodes are found once each, so circular use does no harm.
-/

namespace FormulaGrid

/-- A named formula, with a key to tell it apart. -/
structure Node (κ : Type) where
  key : κ
  name : String
  formula : Formula

namespace Node

variable {κ : Type}

/-- Whether a node uses one of several names. -/
def usesAny (n : Node κ) (names : List String) : Bool := n.formula.refs.any names.contains

/-- What a pass makes of the nodes that it goes over, both lists in their order. -/
structure Pass (κ : Type) where
  found : List (Node κ)
  left : List (Node κ)

/-- One pass over nodes, in order.  A node that uses one of `names` is found, and its own name is of
interest from there on. -/
def pass : (names : List String) → List (Node κ) → Pass κ
  | _, [] => ⟨[], []⟩
  | names, n :: ns =>
    if n.usesAny names then
      let p := pass (n.name :: names) ns
      ⟨n :: p.found, p.left⟩
    else
      let p := pass names ns
      ⟨p.found, n :: p.left⟩

theorem length_pass (names : List String) (nodes : List (Node κ)) :
    (pass names nodes).found.length + (pass names nodes).left.length = nodes.length := by
  induction nodes generalizing names with
  | nil => rfl
  | cons n ns ih =>
    unfold pass
    split
    next => rw [List.length_cons, List.length_cons, ← ih (n.name :: names), Nat.add_right_comm]
    next => rw [List.length_cons, List.length_cons, ← ih names, Nat.add_assoc]

theorem length_left_lt {names : List String} {nodes : List (Node κ)}
    (h : ¬(pass names nodes).found.isEmpty) : (pass names nodes).left.length < nodes.length := by
  have := length_pass names nodes
  have := List.length_pos_iff.2 (mt List.isEmpty_iff.2 h)
  omega

/-- The passes over the nodes that wait, each as the list of the nodes that it finds.  Their names are
of interest in all further passes, and what a pass has found does not wait any more.  A pass that finds
nothing is the last one. -/
def passes (names : List String) (waiting : List (Node κ)) : List (List (Node κ)) :=
  let p := pass names waiting
  if _h : p.found.isEmpty then [[]]
  else p.found :: passes (p.found.map Node.name ++ names) p.left
termination_by waiting.length
decreasing_by exact length_left_lt _h

/-- The keys of the nodes that use a name, directly or through others. -/
def dependents (nodes : List (Node κ)) (name : String) : List κ :=
  (passes [name] nodes).flatten.map Node.key

end Node

end FormulaGrid
