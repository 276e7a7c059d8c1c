import FormulaGrid.Proofs.Comparison
import FormulaGrid.Proofs.Reach

/-!
# Proofs.Circles — circular references are circles of names

An edge leads from a bound name to each name that its formula depends on.  Reduction never builds this
graph and still finds its circles: a circular reference is reported for a name that the formula reaches
and that lies on a circle (`circle_of_reduceOn`), and a formula that comes to something reaches no circle
(`Gives.not_circle_of_reaches`).
-/

namespace FormulaGrid

namespace Bindings

/-- An edge leads from a bound name to a name that its formula depends on. -/
def Edge (b : Bindings) (name next : String) : Prop :=
  ∃ f, b.find? name = some f ∧ next ∈ f.dependencies

/-- All operations in the bound formulas are those of a catalog. -/
def Over (c : Catalog) (b : Bindings) : Prop := ∀ name f, b.find? name = some f → f.Over c

end Bindings

/-! ### The standard operations never answer with a circular reference -/

theorem Arithmetic.eq_of_quotient {ns : List Int64} {e : EvalError} (h : quotient ns = .error e) :
    e = .divisionByZero := by
  cases ns with
  | nil => cases h
  | cons n ns =>
    rw [quotient] at h
    induction ns generalizing n with
    | nil => cases h
    | cons m ns ih =>
      rw [List.foldlM_cons] at h
      unfold ratio at h
      split at h
      next => exact (Except.error.inj h).symm
      next => exact ih _ h

theorem Catalog.neverCircular_of_mem_standard {op : Operation} (h : op ∈ standard.ops) :
    op.NeverCircular := by
  intro ns name happly
  by_cases hdivide : op = .divide
  · subst hdivide
    cases Arithmetic.eq_of_quotient happly
  · rw [ops_standard] at h
    simp only [List.mem_cons, List.not_mem_nil, hdivide, or_false, false_or] at h
    rcases h with rfl | rfl | rfl | rfl | rfl | rfl | rfl <;> cases happly

namespace Formula

variable {b : Bindings}

/-! ### Chains of references are paths of edges -/

/-- A formula reaches the names at the ends of the paths from its dependencies. -/
theorem reaches_iff_path {f : Formula} {name : String} :
    Reaches b f name ↔ ∃ first ∈ f.dependencies, Relation.ReflTransGen b.Edge first name := by
  constructor
  · intro h
    induction h with
    | here h => exact ⟨_, mem_dependencies.mpr h, .refl⟩
    | step h hg _ ih =>
      obtain ⟨first, hfirst, hpath⟩ := ih
      exact ⟨_, mem_dependencies.mpr h, .head ⟨_, hg, hfirst⟩ hpath⟩
  · rintro ⟨first, hfirst, hpath⟩
    induction hpath using Relation.ReflTransGen.head_induction_on generalizing f with
    | refl => exact .here (mem_dependencies.mp hfirst)
    | head hedge _ ih =>
      obtain ⟨g, hg, hnext⟩ := hedge
      exact .step (mem_dependencies.mp hfirst) hg (ih hnext)

theorem path_iff_reaches {name target : String} :
    Relation.TransGen b.Edge name target ↔ ∃ f, b.find? name = some f ∧ Reaches b f target := by
  simp only [Relation.TransGen.head'_iff, reaches_iff_path]
  constructor
  · rintro ⟨next, ⟨f, hf, hnext⟩, hpath⟩
    exact ⟨f, hf, next, hnext, hpath⟩
  · rintro ⟨f, hf, next, hnext, hpath⟩
    exact ⟨next, ⟨f, hf, hnext⟩, hpath⟩

/-! ### A reported circle is one -/

theorem demand_ne_circular (user : String) (r : Formula) (name : String) :
    r.demand user ≠ .error (.circular name) := by
  cases r <;> simp [demand]

variable {path : List String} {name : String}

/-- A circular reference in an operation is one in its arguments. -/
theorem circular_of_app {op : Operation} {args : List Formula} (hop : op.NeverCircular)
    (h : reduceOn b path (.app op args) = .error (.circular name)) :
    demandAll b path op.name args = .error (.circular name) := by
  rw [reduceOn_app] at h
  cases hd : demandAll b path op.name args with
  | error e => simpa [hd] using h
  | ok ns =>
    rw [hd] at h
    cases ha : op.apply ns with
    | error e =>
      simp only [ha, Except.map, Except.error.injEq] at h
      exact absurd (h ▸ ha) (hop ns name)
    | ok n => simp [ha, Except.map] at h

/-- A circular reference in arguments is one in the first of them or in the others. -/
theorem circular_of_cons {user : String} {f : Formula} {fs : List Formula}
    (h : demandAll b path user (f :: fs) = .error (.circular name)) :
    reduceOn b path f = .error (.circular name) ∨
      demandAll b path user fs = .error (.circular name) := by
  rw [demandAll_cons] at h
  cases hr : reduceOn b path f with
  | error e => exact .inl (by simpa [hr] using h)
  | ok r =>
    cases hd : r.demand user with
    | error e =>
      simp only [hr, hd, Except.error.injEq] at h
      exact absurd (h ▸ hd) (demand_ne_circular user r name)
    | ok n =>
      cases hs : demandAll b path user fs with
      | error e => exact .inr (by simpa [hr, hd, hs, Except.map] using h)
      | ok ns => simp [hr, hd, hs, Except.map] at h

/-- The name of a circular reference is reached by the formula and lies on a circle.  What is kept along
the way is that paths lead from each name that is being resolved to every name in the formula at hand. -/
theorem circle_of_reduceOn {c : Catalog} (hc : ∀ op ∈ c.ops, op.NeverCircular) (hb : b.Over c)
    (name : String) :
    (∀ path f, f.Over c → (∀ p ∈ path, ∀ next ∈ f.refs, Relation.TransGen b.Edge p next) →
      reduceOn b path f = .error (.circular name) →
        Reaches b f name ∧ Relation.TransGen b.Edge name name) ∧
    ∀ path user fs, (∀ f ∈ fs, f.Over c) →
      (∀ p ∈ path, ∀ f ∈ fs, ∀ next ∈ f.refs, Relation.TransGen b.Edge p next) →
      demandAll b path user fs = .error (.circular name) →
        (∃ f ∈ fs, Reaches b f name) ∧ Relation.TransGen b.Edge name name := by
  refine reduceOn.mutual_induct b _ _ ?blank ?const ?unbound ?met ?bound ?app ?nil ?cons
  case blank =>
    intro path _ _ h
    simp [reduceOn] at h
  case const =>
    intro path n _ _ h
    simp [reduceOn] at h
  case unbound =>
    intro path met hmet _ _ h
    simp [reduceOn_ref, hmet] at h
  case met =>
    intro path met f hmet hp _ hpath h
    -- the name is on the path already, so the path from it leads back to it
    obtain rfl : met = name := by simpa [reduceOn_ref, hmet, hp] using h
    exact ⟨.here (by simp), hpath met hp met (by simp)⟩
  case bound =>
    intro path met f hmet hp ih _ hpath h
    have hedge : ∀ next ∈ f.refs, Relation.TransGen b.Edge met next :=
      fun next hnext => .single ⟨f, hmet, mem_dependencies.mpr hnext⟩
    have hpath' : ∀ p ∈ met :: path, ∀ next ∈ f.refs, Relation.TransGen b.Edge p next := by
      intro p hm next hnext
      rcases List.mem_cons.mp hm with rfl | hm
      · exact hedge next hnext
      · exact (hpath p hm met (by simp)).trans (hedge next hnext)
    have hf : reduceOn b (met :: path) f = .error (.circular name) := by
      simpa [reduceOn_ref, hmet, hp] using h
    obtain ⟨hr, hcircle⟩ := ih (hb met f hmet) hpath' hf
    exact ⟨reaches_ref_iff.mpr (.inr ⟨f, hmet, hr⟩), hcircle⟩
  case app =>
    intro path op args ih hover hpath h
    obtain ⟨hop, hargs⟩ := over_app_iff.mp hover
    have hpath' : ∀ p ∈ path, ∀ a ∈ args, ∀ next ∈ a.refs, Relation.TransGen b.Edge p next := by
      intro p hp a ha next hnext
      refine hpath p hp next ?_
      rw [refs_app, List.mem_flatMap]
      exact ⟨a, ha, hnext⟩
    obtain ⟨hr, hcircle⟩ := ih hargs hpath' (circular_of_app (hc op hop) h)
    exact ⟨reaches_app_iff.mpr hr, hcircle⟩
  case nil =>
    intro path user _ _ h
    simp [demandAll] at h
  case cons =>
    intro path user f fs ihf ihfs hover hpath h
    obtain ⟨hof, hofs⟩ := List.forall_mem_cons.mp hover
    rcases circular_of_cons h with hf | hfs
    · obtain ⟨hr, hcircle⟩ := ihf hof (fun p hp => hpath p hp f (by simp)) hf
      exact ⟨⟨f, by simp, hr⟩, hcircle⟩
    · obtain ⟨⟨g, hg, hr⟩, hcircle⟩ :=
        ihfs hofs (fun p hp g hg => hpath p hp g (by simp [hg])) hfs
      exact ⟨⟨g, by simp [hg], hr⟩, hcircle⟩

theorem circle_of_reduce {c : Catalog} (hc : ∀ op ∈ c.ops, op.NeverCircular) (hb : b.Over c)
    {f : Formula} (hf : f.Over c) (h : f.reduce b = .error (.circular name)) :
    Reaches b f name ∧ Relation.TransGen b.Edge name name :=
  (circle_of_reduceOn hc hb name).1 [] f hf (by simp) h

/-! ### Where there is a value there is no circle -/

theorem Gives.exists_of_mem_refs {f r : Formula} (h : Gives b f (.ok r)) (hm : name ∈ f.refs) :
    ∃ r', Gives b (.ref name) (.ok r') := by
  induction f using Formula.ind generalizing r with
  | blank => simp at hm
  | const => simp at hm
  | ref other =>
    obtain rfl : name = other := by simpa using hm
    exact ⟨r, h⟩
  | app op args ih =>
    rw [refs_app, List.mem_flatMap] at hm
    obtain ⟨a, ha, hm⟩ := hm
    obtain ⟨n, hn⟩ := h.exists_args.2 a ha
    exact ih a ha hn hm

/-- What a formula with a value reaches has a value. -/
theorem Gives.exists_of_reaches {f r : Formula} (h : Gives b f (.ok r)) (hr : Reaches b f name) :
    ∃ r', Gives b (.ref name) (.ok r') := by
  induction hr generalizing r with
  | here hm => exact h.exists_of_mem_refs hm
  | step hm hg _ ih =>
    obtain ⟨r', h'⟩ := h.exists_of_mem_refs hm
    exact ih (h'.of_ref hg)

/-- No name on a circle is reached by a formula that comes to something. -/
theorem Gives.not_circle_of_reaches {f r : Formula} (h : Gives b f (.ok r))
    (hr : Reaches b f name) : ¬Relation.TransGen b.Edge name name := by
  intro hcircle
  obtain ⟨r', hname⟩ := h.exists_of_reaches hr
  obtain ⟨g, hg, hself⟩ := path_iff_reaches.mp hcircle
  have hvalue := hname.of_ref hg
  exact hvalue.no_outcome_of_reaches (fun _ _ => rfl) hg hself ⟨_, hvalue⟩

/-- Over standard operations, a circular reference is reported for a name that is reached and lies on a
circle, no circle is reached where reduction comes to something, and none is reported where none is
reached. -/
theorem circles_of_reduce {f : Formula} (hf : f.Over .standard) (hb : b.Over .standard) :
    (∀ name, f.reduce b = .error (.circular name) →
      Reaches b f name ∧ Relation.TransGen b.Edge name name) ∧
    (∀ r, f.reduce b = .ok r → ∀ name, Reaches b f name → ¬Relation.TransGen b.Edge name name) ∧
    ((∀ name, Reaches b f name → ¬Relation.TransGen b.Edge name name) →
      ∀ name, f.reduce b ≠ .error (.circular name)) := by
  have hcircle : ∀ name, f.reduce b = .error (.circular name) →
      Reaches b f name ∧ Relation.TransGen b.Edge name name :=
    fun name h => circle_of_reduce (fun _ => Catalog.neverCircular_of_mem_standard) hb hf h
  refine ⟨hcircle, fun r h name hr => ?_, fun hno name h => ?_⟩
  · exact (gives_of_reduce_eq_ok h).not_circle_of_reaches hr
  · obtain ⟨hr, hself⟩ := hcircle name h
    exact hno name hr hself

/-- A name that leads to a sum over itself, without being on its circle. -/
def hookedLoop : Bindings :=
  .ofList [("A0", .ref "B0"), ("B0", .app .plus [.const 1, .ref "B0"])]

theorem hookedLoop_circle :
    (Formula.ref "A0").reduce hookedLoop = .error (.circular "B0") ∧
      Reaches hookedLoop (.ref "A0") "B0" ∧ Relation.TransGen hookedLoop.Edge "B0" "B0" := by
  have hA : hookedLoop.find? "A0" = some (.ref "B0") := rfl
  have hB : hookedLoop.find? "B0" = some (.app .plus [.const 1, .ref "B0"]) := rfl
  have hreduce : (Formula.ref "A0").reduce hookedLoop = .error (.circular "B0") := by
    simp [reduce, reduceOn_ref, reduceOn_app, demandAll_cons, hA, hB, reduceOn, demand, Except.map]
  have hf : (Formula.ref "A0").Over .standard := by simp [Over]
  have hb : hookedLoop.Over .standard := by
    intro name g hg
    have hmem := Bindings.mem_of_lookup_eq_some hg
    simp only [Bindings.latest, List.map_cons, List.map_nil, List.mem_cons, List.not_mem_nil,
      String.reduceEq, or_false, if_false, Prod.mk.injEq] at hmem
    obtain ⟨-, rfl⟩ | ⟨-, rfl⟩ := hmem
    · simp [Over]
    · simp [Over, Catalog.ops_standard]
  exact ⟨hreduce, (circles_of_reduce hf hb).1 "B0" hreduce⟩

end Formula

end FormulaGrid
