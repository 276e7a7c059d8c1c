import FormulaGrid.Operation.Basic

/-!
# Formula — expression trees

A formula is blank, a constant, a reference to a name, or an operation over formulas.  `refs` lists
the names a formula uses; `same` compares formulas, looking at the name and style of an operation
and not at its function.
-/

namespace FormulaGrid

/-- What a cell or builtin holds. -/
inductive Formula where
  | blank
  | const (n : Int64)
  | ref (name : String)
  | app (op : Operation) (args : List Formula)

namespace Formula

/-- What holds of every formula whose arguments it holds of holds of all formulas. -/
theorem ind {P : Formula → Prop} (blank : P blank) (const : ∀ n, P (const n))
    (ref : ∀ name, P (ref name)) (app : ∀ op args, (∀ a ∈ args, P a) → P (app op args)) :
    ∀ f, P f
  | .blank => blank
  | .const n => const n
  | .ref name => ref name
  | .app op args => app op args fun a _ => ind blank const ref app a

/-- An operation over as many arguments as it takes. -/
def make (op : Operation) (args : List Formula) : Except BuildError Formula := do
  op.checkCount args.length
  return app op args

/-- Whether this is a constant. -/
def isConst : Formula → Bool
  | const _ => true
  | _ => false

theorem make_of_admits {op : Operation} {args : List Formula}
    (h : op.arity.admits args.length = true) : make op args = .ok (app op args) := by
  simp [make, Operation.checkCount, h, bind, Except.bind, pure, Except.pure]

theorem make_eq_ok_iff {op : Operation} {args : List Formula} {f : Formula} :
    make op args = .ok f ↔ op.arity.admits args.length = true ∧ f = app op args := by
  by_cases h : op.arity.admits args.length = true
  · simp [make_of_admits h, h, eq_comm]
  · simp [make, Operation.checkCount, h, bind, Except.bind]

/-! ### Names in use -/

mutual

/-- The names used in a formula, from left to right. -/
def refs : Formula → List String
  | blank => []
  | const _ => []
  | ref name => [name]
  | app _ args => refsAll args

/-- The names used in a list of formulas, from left to right. -/
def refsAll : List Formula → List String
  | [] => []
  | f :: fs => refs f ++ refsAll fs

end

/-- The names used in a formula, each once. -/
def dependencies (f : Formula) : List String := f.refs.eraseDups

@[simp] theorem refs_blank : blank.refs = [] := by simp only [refs]
@[simp] theorem refs_const (n : Int64) : (const n).refs = [] := by simp only [refs]
@[simp] theorem refs_ref (name : String) : (ref name).refs = [name] := by simp only [refs]

theorem refsAll_eq_flatMap (fs : List Formula) : refsAll fs = fs.flatMap refs := by
  induction fs with
  | nil => rfl
  | cons f fs ih => rw [refsAll, ih, List.flatMap_cons]

@[simp] theorem refs_app (op : Operation) (args : List Formula) :
    (app op args).refs = args.flatMap refs := by
  rw [refs, refsAll_eq_flatMap]

theorem mem_dependencies {f : Formula} {name : String} :
    name ∈ f.dependencies ↔ name ∈ f.refs :=
  List.mem_eraseDups

/-! ### Comparison -/

mutual

/-- Whether two formulas are alike: operations count as alike when their names and styles are. -/
def same : Formula → Formula → Bool
  | blank, blank => true
  | const m, const n => m == n
  | ref m, ref n => m == n
  | app o as, app p bs => o.name == p.name && o.style == p.style && sameAll as bs
  | _, _ => false

/-- Whether two lists are alike place by place. -/
def sameAll : List Formula → List Formula → Bool
  | [], [] => true
  | f :: fs, g :: gs => same f g && sameAll fs gs
  | _, _ => false

end

instance : BEq Formula := ⟨same⟩

@[simp] theorem same_app (o p : Operation) (as bs : List Formula) :
    (app o as).same (app p bs) = (o.name == p.name && o.style == p.style && sameAll as bs) := by
  rw [same]

mutual

theorem same_refl : ∀ f : Formula, f.same f = true
  | blank => by simp [same]
  | const _ => by simp [same]
  | ref _ => by simp [same]
  | app _ args => by simp [sameAll_refl args]

theorem sameAll_refl : ∀ fs : List Formula, sameAll fs fs = true
  | [] => by simp [sameAll]
  | f :: fs => by simp [sameAll, same_refl f, sameAll_refl fs]

end

end Formula

end FormulaGrid
