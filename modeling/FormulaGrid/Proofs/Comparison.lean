import FormulaGrid.Catalog.Basic
import FormulaGrid.Proofs.CycleGuard
import Mathlib.Data.List.Nodup

/-!
# Proofs.Comparison — formulas that are alike

The comparison of formulas looks at the names of operations and not at their functions.  Within one
catalog a name tells which function it is, so formulas of one catalog are alike only if they are equal
(`same_iff_eq`).
-/

namespace FormulaGrid

/-- Operations of one catalog are equal when their names are. -/
theorem Catalog.eq_of_name_eq {c : Catalog} {o p : Operation} (ho : o ∈ c.ops) (hp : p ∈ c.ops)
    (h : o.name = p.name) : o = p := by
  have hkey : o.key = p.key := by rw [Operation.key, h, Operation.key]
  exact List.inj_on_of_nodup_map c.distinct ho hp hkey

namespace Formula

/-- All operations in a formula are those of a catalog. -/
def Over (c : Catalog) (f : Formula) : Prop := ∀ op ∈ f.ops, op ∈ c.ops

theorem over_app_iff {c : Catalog} {op : Operation} {args : List Formula} :
    Over c (.app op args) ↔ op ∈ c.ops ∧ ∀ a ∈ args, Over c a := by
  simp only [Over, ops_app, List.forall_mem_cons, List.mem_flatMap]
  refine and_congr_right fun _ => ⟨fun h a ha o ho => h o ⟨a, ha, ho⟩, ?_⟩
  rintro h o ⟨a, ha, ho⟩
  exact h a ha o ho

theorem eq_of_sameAll {fs gs : List Formula}
    (h : ∀ f ∈ fs, ∀ g ∈ gs, f.same g = true → f = g) (hs : sameAll fs gs = true) : fs = gs := by
  induction fs generalizing gs with
  | nil =>
    cases gs with
    | nil => rfl
    | cons => simp [sameAll] at hs
  | cons f fs ih =>
    cases gs with
    | nil => simp [sameAll] at hs
    | cons g gs =>
      obtain ⟨hfirst, hrest⟩ : f.same g = true ∧ sameAll fs gs = true := by
        simpa [sameAll] using hs
      have hfg := h f (by simp) g (by simp) hfirst
      have hfgs := ih (fun x hx y hy => h x (by simp [hx]) y (by simp [hy])) hrest
      rw [hfg, hfgs]

theorem eq_of_same {c : Catalog} {f g : Formula} (hf : f.Over c) (hg : g.Over c)
    (h : f.same g = true) : f = g := by
  induction f using Formula.ind generalizing g with
  | blank => cases g <;> simp_all [same]
  | const => cases g <;> simp_all [same]
  | ref => cases g <;> simp_all [same]
  | app op args ih =>
    cases g with
    | app op' args' =>
      obtain ⟨hop, hargs⟩ := over_app_iff.mp hf
      obtain ⟨hop', hargs'⟩ := over_app_iff.mp hg
      obtain ⟨⟨hname, -⟩, hall⟩ : (op.name = op'.name ∧ op.style = op'.style) ∧
          sameAll args args' = true := by simpa using h
      rw [Catalog.eq_of_name_eq hop hop' hname,
        eq_of_sameAll (fun a ha b hb => ih a ha (hargs a ha) (hargs' b hb)) hall]
    | blank | const | ref => simp [same] at h

/-- Formulas of one catalog are alike exactly if they are equal. -/
theorem same_iff_eq {c : Catalog} {f g : Formula} (hf : f.Over c) (hg : g.Over c) :
    f.same g = true ↔ f = g :=
  ⟨eq_of_same hf hg, fun h => h ▸ same_refl f⟩

end Formula

end FormulaGrid
