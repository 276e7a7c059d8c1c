import FormulaGrid.Proofs.Comparison
import FormulaGrid.Proofs.ParsedShape
import FormulaGrid.Proofs.Rebuild

/-!
# Proofs.Origin — formulas made from one catalog

The nodes that a catalog makes carry its own operations, whatever spellings of names they are asked for
with and however they come about: one by one, by a builder, or from text (`Catalog.over_of_makes`).  As a
catalog has one operation of each name, the comparison of formulas, which looks at names only, is sound
for them (`Catalog.outcomes_of_beq`).
-/

namespace FormulaGrid

namespace Builder

variable {α : Type}

/-- Leaves have the property, and nodes have it if their arguments do. -/
structure Closed (b : Builder α) (P : α → Prop) : Prop where
  blank : P b.blank
  constant : ∀ n, P (b.constant n)
  reference : ∀ name, P (b.reference name)
  apply : ∀ name args e, (∀ a ∈ args, P a) → b.apply name args = .ok e → P e

variable {b : Builder α} {P : α → Prop}

mutual

theorem Closed.rebuild (h : b.Closed P) : ∀ t e, b.rebuild t = .ok e → P e
  | .blank, e, he => by
    rw [Builder.rebuild] at he
    exact Except.ok.inj he ▸ h.blank
  | .constant n, e, he => by
    rw [Builder.rebuild] at he
    exact Except.ok.inj he ▸ h.constant n
  | .reference name, e, he => by
    rw [Builder.rebuild] at he
    exact Except.ok.inj he ▸ h.reference name
  | .apply name args, e, he => by
    rw [Builder.rebuild] at he
    obtain ⟨nodes, hnodes, he⟩ := Except.bind_eq_ok_iff.mp he
    exact h.apply name nodes e (h.rebuildAll args nodes hnodes) he

theorem Closed.rebuildAll (h : b.Closed P) :
    ∀ ts es, b.rebuildAll ts = .ok es → ∀ e ∈ es, P e
  | [], es, hes => by
    rw [Builder.rebuildAll] at hes
    obtain rfl := Except.ok.inj hes
    simp
  | t :: ts, es, hes => by
    rw [Builder.rebuildAll] at hes
    obtain ⟨node, hnode, hes⟩ := Except.bind_eq_ok_iff.mp hes
    obtain ⟨nodes, hnodes, hes⟩ := Except.bind_eq_ok_iff.mp hes
    obtain rfl := Except.ok.inj hes
    exact List.forall_mem_cons.mpr ⟨h.rebuild t node hnode, h.rebuildAll ts nodes hnodes⟩

end

/-- Every node of a text is made from a tree. -/
theorem exists_rebuild_of_parse {text : String} {e : α} (h : b.parse text = .ok e) :
    ∃ t, b.rebuild t = .ok e := by
  have hfollows := follows_parse (b := b) text
  rw [h] at hfollows
  cases hfree : free.parse text with
  | error e' =>
    rw [hfree] at hfollows
    rcases follows_error_iff.mp hfollows with he | ⟨r, hr⟩
    · cases he
    · cases hr
  | ok t =>
    rw [hfree] at hfollows
    exact ⟨t, Except.mapError_eq_ok_iff.mp (follows_ok_iff.mp hfollows).symm⟩

theorem Closed.parse (h : b.Closed P) {text : String} {e : α} (he : b.parse text = .ok e) : P e := by
  obtain ⟨t, ht⟩ := exists_rebuild_of_parse he
  exact h.rebuild t e ht

end Builder

namespace Catalog

open Formula

/-- What is made from a catalog: leaves, nodes over what is made from it, with or without lists among the
arguments taken apart, and formulas of texts. -/
inductive Makes (c : Catalog) : Formula → Prop
  | blank : Makes c .blank
  | const (n : Int64) : Makes c (.const n)
  | ref (name : String) : Makes c (.ref name)
  | build {name : String} {args : List Formula} {f : Formula} (hargs : ∀ a ∈ args, Makes c a)
      (h : c.build name args = .ok f) : Makes c f
  | combine {name : String} {args : List Formula} {f : Formula} (hargs : ∀ a ∈ args, Makes c a)
      (h : c.combine name args = .ok f) : Makes c f
  | parse {text : String} {f : Formula} (h : c.parse text = .ok f) : Makes c f

variable {c : Catalog}

theorem over_of_build {name : String} {args : List Formula} {f : Formula}
    (hargs : ∀ a ∈ args, a.Over c) (h : c.build name args = .ok f) : f.Over c := by
  unfold build at h
  split at h
  next op hop =>
    obtain ⟨-, rfl⟩ := make_eq_ok_iff.mp h
    exact over_app_iff.mpr ⟨(mem_ops_of_find? hop).1, hargs⟩
  next => cases h

theorem over_of_mem_unpack {args : List Formula} (hargs : ∀ a ∈ args, a.Over c) :
    ∀ a ∈ unpack args, a.Over c := by
  unfold unpack
  split
  next op fs =>
    split
    · exact (over_app_iff.mp (hargs (.app op fs) (by simp))).2
    · exact hargs
  next => exact hargs

theorem over_of_combine {name : String} {args : List Formula} {f : Formula}
    (hargs : ∀ a ∈ args, a.Over c) (h : c.combine name args = .ok f) : f.Over c := by
  have hunpack := over_of_mem_unpack hargs
  dsimp only [combine] at h
  split at h
  · split at h
    next only honly =>
      cases h
      exact hunpack _ (by simp [honly])
    next => exact over_of_build hunpack h
  · exact over_of_build hunpack h

theorem closed_over (c : Catalog) : c.builder.Closed (Over c) where
  blank := by simp [builder, Over]
  constant n := by simp [builder, Over]
  reference name := by simp [builder, Over]
  apply _ _ _ hargs h := over_of_combine hargs h

/-- Formulas made from a catalog have no operations but its own. -/
theorem over_of_makes {f : Formula} (h : c.Makes f) : f.Over c := by
  induction h with
  | blank | const | ref => simp [Over]
  | build _ h ih => exact over_of_build ih h
  | combine _ h ih => exact over_of_combine ih h
  | parse h => exact c.closed_over.parse h

/-- Formulas made from one catalog that compare as equal come to the same under all bindings, and they have
the same text and the same dependencies. -/
theorem outcomes_of_beq {f g : Formula} (hf : c.Makes f) (hg : c.Makes g) (h : (f == g) = true) :
    (∀ b, f.reduce b = g.reduce b) ∧ f.render = g.render ∧ f.dependencies = g.dependencies := by
  have heq : f = g := (same_iff_eq (over_of_makes hf) (over_of_makes hg)).mp h
  rw [heq]
  exact ⟨fun _ => rfl, rfl, rfl⟩

/-- The sum as a call.  Its name has more letters in upper case. -/
def mass : Operation := { Operation.plus with name := "Maß", style := .call }

/-- The standard operations and one more. -/
def withMass : Catalog := standard.register mass

theorem spellings_agree :
    ∃ f g, withMass.build "maß" [.ref "A0", .app .mean [.const 2]] = .ok f ∧
      withMass.parse "(mass(A0, Mean(2)))" = .ok g ∧ (f == g) = true ∧
      (∀ b, f.reduce b = g.reduce b) ∧ f.render = g.render ∧ f.dependencies = g.dependencies := by
  have hmean : withMass.build "mean" [.const 2] = .ok (.app .mean [.const 2]) := by with_unfolding_all rfl
  have hbuild : withMass.build "maß" [.ref "A0", .app .mean [.const 2]] =
      .ok (.app mass [.ref "A0", .app .mean [.const 2]]) := by with_unfolding_all rfl
  have hparse : withMass.parse "(mass(A0, Mean(2)))" =
      .ok (.app mass [.ref "A0", .app .mean [.const 2]]) := by with_unfolding_all rfl
  have hinner : withMass.Makes (.app .mean [.const 2]) := .build (by simp [Makes.const]) hmean
  have hf : withMass.Makes (.app mass [.ref "A0", .app .mean [.const 2]]) :=
    .build (by simp [Makes.ref, hinner]) hbuild
  exact ⟨_, _, hbuild, hparse, same_refl _, outcomes_of_beq hf (.parse hparse) (same_refl _)⟩

/-- Across catalogs the comparison does not tell functions apart. -/
example : (Formula.app .plus [] == .app { Operation.plus with apply := fun _ => .ok 7 } []) = true := by
  rfl

end Catalog

end FormulaGrid
