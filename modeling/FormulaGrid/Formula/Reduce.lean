import FormulaGrid.Formula.Bindings
import FormulaGrid.Formula.Render

/-!
# Formula.Reduce — what a formula comes to

A bound reference comes to what its formula comes to, and an operation to the constant its function
gives for constant arguments; all else stays.  The names being resolved are kept on a path, and to
meet one of them again is an error.  A path names ever more of the finitely many bound names, so
reduction ends also where bindings are circular.
-/

namespace FormulaGrid

namespace Bindings

/-- The bound names that are not on a path, with respect to a fixed list of all bound names. -/
noncomputable def unresolved (b : Bindings) (path : List String) : List String :=
  b.finite.choose.filter fun name => name ∉ path

theorem length_unresolved_cons_lt (b : Bindings) {path : List String} {name : String} {f : Formula}
    (h : b.find? name = some f) (hp : name ∉ path) :
    (b.unresolved (name :: path)).length < (b.unresolved path).length := by
  have hm := b.finite.choose_spec name f h
  have : b.unresolved (name :: path) = (b.unresolved path).filter fun n => n ≠ name := by
    simp [unresolved, List.filter_filter]
  rw [this, List.length_filter_lt_length_iff_exists]
  exact ⟨name, by simp [unresolved, hm, hp], by simp⟩

end Bindings

namespace Formula

/-- The number that `user` is given by a formula, which must be a constant. -/
def demand (user : String) : Formula → Except EvalError Int64
  | const n => .ok n
  | blank => .error (.notConstant user none)
  | f => .error (.notConstant user (some f.render))

/-- The number of a constant. -/
def value (f : Formula) : Except EvalError Int64 := f.demand "value"

mutual

/-- What a formula comes to while the names on `path` are being resolved. -/
def reduceOn (b : Bindings) (path : List String) : Formula → Except EvalError Formula
  | blank => .ok blank
  | const n => .ok (const n)
  | ref name =>
    match _h : b.find? name with
    | none => .ok (ref name)
    | some f => if _hp : name ∈ path then .error (.circular name) else reduceOn b (name :: path) f
  | app op args => do
    let ns ← demandAll b path op.name args
    let n ← op.apply ns
    return const n
termination_by f => ((b.unresolved path).length, sizeOf f)
decreasing_by
  · exact Prod.Lex.left _ _ (b.length_unresolved_cons_lt _h _hp)
  · exact Prod.Lex.right _ (by rw [app.sizeOf_spec]; omega)

/-- The numbers that `user` is given by its arguments, from left to right. -/
def demandAll (b : Bindings) (path : List String) (user : String) :
    List Formula → Except EvalError (List Int64)
  | [] => .ok []
  | f :: fs => do
    let r ← reduceOn b path f
    let n ← r.demand user
    let ns ← demandAll b path user fs
    return n :: ns
termination_by fs => ((b.unresolved path).length, sizeOf fs)

end

theorem reduceOn_ref (b : Bindings) (path : List String) (name : String) :
    reduceOn b path (ref name) =
      match b.find? name with
      | none => .ok (ref name)
      | some f => if name ∈ path then .error (.circular name) else reduceOn b (name :: path) f := by
  rw [reduceOn]
  split <;> simp_all

/-- What a formula comes to under bindings. -/
def reduce (b : Bindings) (f : Formula) : Except EvalError Formula := f.reduceOn b []

end Formula

end FormulaGrid
