import FormulaGrid.Proofs.CycleGuard
import Mathlib.Data.List.Forall2

/-!
# Proofs.Inlining — a formula in place of its name

A bound name may be replaced by its formula wherever it stands.  The outcomes of the two formulas are the
same (`gives_inline_iff`).  Reduction meets them with different paths: inside the formula of the name, the
name is being resolved in one of them only.  This shows at most in the name at which it stops on a circle
(`reduce_inline`).
-/

namespace FormulaGrid.Formula

mutual

/-- A formula with `g` in place of each reference to a name. -/
def inline (name : String) (g : Formula) : Formula → Formula
  | blank => blank
  | const n => const n
  | ref other => if other = name then g else ref other
  | app op args => app op (inlineAll name g args)

/-- Formulas with `g` in place of each reference to a name. -/
def inlineAll (name : String) (g : Formula) : List Formula → List Formula
  | [] => []
  | f :: fs => inline name g f :: inlineAll name g fs

end

section

variable (name : String) (g : Formula)

@[simp] theorem inline_blank : inline name g .blank = .blank := by simp only [inline]
@[simp] theorem inline_const (n : Int64) : inline name g (.const n) = .const n := by simp only [inline]
@[simp] theorem inline_ref_self : inline name g (.ref name) = g := by simp [inline]

theorem inline_ref_of_ne {other : String} (h : other ≠ name) :
    inline name g (.ref other) = .ref other := by
  simp [inline, h]

theorem inlineAll_eq_map (fs : List Formula) : inlineAll name g fs = fs.map (inline name g) := by
  induction fs with
  | nil => rfl
  | cons f fs ih => rw [inlineAll, ih, List.map_cons]

@[simp] theorem inline_app (op : Operation) (args : List Formula) :
    inline name g (.app op args) = .app op (args.map (inline name g)) := by
  rw [inline, inlineAll_eq_map]

end

variable {b : Bindings} {name : String} {g : Formula}

/-! ### The outcome stays -/

/-- Arguments that have the outcomes of the arguments in their places give the same numbers. -/
theorem GivesAll.of_forall₂ {user : String} {fs gs : List Formula} {o : Except EvalError (List Int64)}
    (hfs : List.Forall₂ (fun f g => ∀ r, Gives b f r → Gives b g r) fs gs) (h : GivesAll b user fs o) :
    GivesAll b user gs o := by
  induction hfs generalizing o with
  | nil => exact h
  | cons hf _ ih =>
    cases h with
    | failed h => exact .failed (hf _ h)
    | missing h => exact .missing (hf _ h)
    | misfit h hb hc => exact .misfit (hf _ h) hb hc
    | cut h hfs => exact .cut (hf _ h) (ih hfs)
    | cons h hfs => exact .cons (hf _ h) (ih hfs)

theorem Gives.app_of_forall₂ {op : Operation} {fs gs : List Formula} {o : Except EvalError Formula}
    (hfs : List.Forall₂ (fun f g => ∀ r, Gives b f r → Gives b g r) fs gs)
    (h : Gives b (.app op fs) o) : Gives b (.app op gs) o := by
  cases h with
  | stopped h => exact .stopped (h.of_forall₂ hfs)
  | applied h => exact .applied (h.of_forall₂ hfs)

/-- A formula has the same outcome when a bound name in it is replaced by its formula. -/
theorem gives_inline_iff (hg : b.find? name = some g) {f : Formula} {o : Except EvalError Formula} :
    Gives b (inline name g f) o ↔ Gives b f o := by
  induction f using Formula.ind generalizing o with
  | blank => rw [inline_blank]
  | const n => rw [inline_const]
  | ref other =>
    by_cases hother : other = name
    · rw [hother, inline_ref_self]
      exact ⟨.bound hg, fun h => h.of_ref hg⟩
    · rw [inline_ref_of_ne name g hother]
  | app op args ih =>
    rw [inline_app]
    constructor
    · refine Gives.app_of_forall₂ (List.forall₂_map_left_iff.mpr ?_)
      exact List.forall₂_same.mpr fun a ha r => (ih a ha).mp
    · refine Gives.app_of_forall₂ (List.forall₂_map_right_iff.mpr ?_)
      exact List.forall₂_same.mpr fun a ha r => (ih a ha).mpr

/-- A formula in which a bound name is replaced by its formula comes to the same, or both are stopped by a
circular reference, possibly through different names. -/
theorem reduce_inline (hg : b.find? name = some g) (f : Formula) :
    (inline name g f).reduce b = f.reduce b ∨
      (∃ met, (inline name g f).reduce b = .error (.circular met)) ∧
        ∃ met, f.reduce b = .error (.circular met) := by
  rcases circular_or_gives_reduce b f with hcircular | hgives
  · rcases circular_or_gives_reduce b (inline name g f) with hcircular' | hgives'
    · exact .inr ⟨hcircular', hcircular⟩
    · exact .inl ((gives_inline_iff hg).mp hgives').reduce_eq.symm
  · exact .inl ((gives_inline_iff hg).mpr hgives).reduce_eq

/-- A circle of two names, and a name outside of it. -/
def circleAndSum : Bindings :=
  .ofList [("A0", .ref "A1"), ("A1", .app .plus [.ref "A0", .const 1]),
    ("B0", .app .plus [.const 1, .const 3])]

/-- Outside the circle the value stays, and on it the two reductions stop at different names. -/
theorem circleAndSum_inline :
    (circleAndSum.find? "B0" = some (.app .plus [.const 1, .const 3]) ∧
      inline "B0" (.app .plus [.const 1, .const 3]) (.app .times [.ref "B0", .const 6]) =
        .app .times [.app .plus [.const 1, .const 3], .const 6] ∧
      (Formula.app .times [.app .plus [.const 1, .const 3], .const 6]).reduce circleAndSum =
        .ok (.const 24) ∧
      (Formula.app .times [.ref "B0", .const 6]).reduce circleAndSum = .ok (.const 24)) ∧
    circleAndSum.find? "A0" = some (.ref "A1") ∧ inline "A0" (.ref "A1") (.ref "A0") = .ref "A1" ∧
      (Formula.ref "A1").reduce circleAndSum ≠ (Formula.ref "A0").reduce circleAndSum ∧
      (∃ met, (Formula.ref "A1").reduce circleAndSum = .error (.circular met)) ∧
        ∃ met, (Formula.ref "A0").reduce circleAndSum = .error (.circular met) := by
  have h0 : circleAndSum.find? "A0" = some (.ref "A1") := rfl
  have h1 : circleAndSum.find? "A1" = some (.app .plus [.ref "A0", .const 1]) := rfl
  have hsum : circleAndSum.find? "B0" = some (.app .plus [.const 1, .const 3]) := rfl
  have hinline : inline "A0" (.ref "A1") (.ref "A0") = .ref "A1" := inline_ref_self "A0" _
  have hinline' : inline "B0" (.app .plus [.const 1, .const 3]) (.app .times [.ref "B0", .const 6]) =
      .app .times [.app .plus [.const 1, .const 3], .const 6] := by
    simp [inline_app, inline_ref_self, inline_const]
  have hvalue : (Formula.app .times [.app .plus [.const 1, .const 3], .const 6]).reduce circleAndSum =
      .ok (.const 24) := by
    simp [reduce, reduceOn_app, demandAll_cons, reduceOn, demandAll, demand, Operation.plus,
      Operation.times, Arithmetic.sum, Arithmetic.product, Except.map]
  have hne : (Formula.ref "A1").reduce circleAndSum ≠ (Formula.ref "A0").reduce circleAndSum := by
    simp [reduce, reduceOn_ref, reduceOn_app, demandAll_cons, h0, h1]
  have hboth := reduce_inline h0 (.ref "A0")
  rw [hinline] at hboth
  have hsame := reduce_inline hsum (.app .times [.ref "B0", .const 6])
  rw [hinline', hvalue] at hsame
  have hkept : (Formula.app .times [.ref "B0", .const 6]).reduce circleAndSum = .ok (.const 24) := by
    rcases hsame with h | ⟨⟨_, h⟩, -⟩
    · exact h.symm
    · cases h
  exact ⟨⟨hsum, hinline', hvalue, hkept⟩, h0, hinline, hne, hboth.resolve_left hne⟩

end FormulaGrid.Formula
