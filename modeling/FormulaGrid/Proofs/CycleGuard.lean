import FormulaGrid.Operation.Arithmetic
import FormulaGrid.Proofs.BigStep
import Mathlib.Logic.Relation

/-!
# Proofs.CycleGuard — the path of reduction finds exactly the circles

A formula with an outcome is evaluated through other formulas, never through itself (`Gives.acc`).
So the path of names being resolved never stands in the way of an outcome (`Gives.reduceOn_eq`), and
where reduction reports a circle there is no outcome to be had.
-/

namespace FormulaGrid

/-- Its function never answers with a circular reference. -/
def Operation.NeverCircular (op : Operation) : Prop :=
  ∀ ns name, op.apply ns ≠ .error (.circular name)

namespace Formula

mutual

/-- The operations in a formula, from left to right. -/
def ops : Formula → List Operation
  | blank => []
  | const _ => []
  | ref _ => []
  | app op args => op :: opsAll args

/-- The operations in a list of formulas, from left to right. -/
def opsAll : List Formula → List Operation
  | [] => []
  | f :: fs => ops f ++ opsAll fs

end

@[simp] theorem ops_blank : blank.ops = [] := by simp only [ops]
@[simp] theorem ops_const (n : Int64) : (const n).ops = [] := by simp only [ops]
@[simp] theorem ops_ref (name : String) : (ref name).ops = [] := by simp only [ops]

theorem opsAll_eq_flatMap (fs : List Formula) : opsAll fs = fs.flatMap ops := by
  induction fs with
  | nil => rfl
  | cons f fs ih => rw [opsAll, ih, List.flatMap_cons]

@[simp] theorem ops_app (op : Operation) (args : List Formula) :
    (app op args).ops = op :: args.flatMap ops := by
  rw [ops, opsAll_eq_flatMap]

variable {b : Bindings}

/-! ### Formulas that are evaluated on the way -/

/-- `a` is one of the arguments, and those before it come to constants. -/
inductive Turn (b : Bindings) (a : Formula) : List Formula → Prop
  | head {fs : List Formula} : Turn b a (a :: fs)
  | tail {f : Formula} {fs : List Formula} {n : Int64} (hf : Gives b f (.ok (.const n)))
      (ha : Turn b a fs) : Turn b a (f :: fs)

/-- To evaluate `f` is to evaluate `a` on the way. -/
inductive Met (b : Bindings) (a : Formula) : Formula → Prop
  | bound {name : String} (h : b.find? name = some a) : Met b a (.ref name)
  | argument {op : Operation} {args : List Formula} (h : Turn b a args) : Met b a (.app op args)

mutual

/-- Formulas with an outcome lie below no endless way of evaluation. -/
theorem Gives.acc {f : Formula} {r : Except EvalError Formula} : Gives b f r → Acc (Met b) f
  | .blank => ⟨_, fun _ h => nomatch h⟩
  | .const _ => ⟨_, fun _ h => nomatch h⟩
  | .free h => by
    refine ⟨_, fun a ha => ?_⟩
    obtain ⟨h'⟩ := ha
    simp [h] at h'
  | .bound h hf => by
    have hacc := hf.acc
    refine ⟨_, fun a ha => ?_⟩
    obtain ⟨h'⟩ := ha
    rw [h] at h'
    cases h'
    exact hacc
  | .stopped h => by
    refine ⟨_, fun a ha => ?_⟩
    obtain - | ⟨ha⟩ := ha
    exact h.acc a ha
  | .applied h => by
    refine ⟨_, fun a ha => ?_⟩
    obtain - | ⟨ha⟩ := ha
    exact h.acc a ha

theorem GivesAll.acc {user : String} {fs : List Formula} {r : Except EvalError (List Int64)} :
    GivesAll b user fs r → ∀ a, Turn b a fs → Acc (Met b) a
  | .nil _, _, ha => nomatch ha
  | .failed hf, a, ha => by
    have hacc := hf.acc
    cases ha with
    | head => exact hacc
    | tail hn => cases hf.unique hn
  | .missing hf, a, ha => by
    have hacc := hf.acc
    cases ha with
    | head => exact hacc
    | tail hn => cases hf.unique hn
  | .misfit hf _ hc, a, ha => by
    have hacc := hf.acc
    cases ha with
    | head => exact hacc
    | tail hn => cases hf.unique hn; cases hc
  | .cut hf hfs, a, ha => by
    have hacc := hf.acc
    cases ha with
    | head => exact hacc
    | tail _ ha => exact hfs.acc a ha
  | .cons hf hfs, a, ha => by
    have hacc := hf.acc
    cases ha with
    | head => exact hacc
    | tail _ ha => exact hfs.acc a ha

end

/-- A formula with an outcome is not evaluated on its own way. -/
theorem Gives.not_met_self {f : Formula} {r : Except EvalError Formula} (h : Gives b f r) :
    ¬Relation.TransGen (Met b) f f := by
  have hacc : Acc (Relation.TransGen (Met b)) f := h.acc.transGen
  clear h
  induction hacc with
  | intro f _ ih => exact fun hf => ih f hf hf

/-! ### The path does not stand in the way of an outcome -/

mutual

theorem Gives.reduceOn_eq {f : Formula} {r : Except EvalError Formula} {path : List String} :
    Gives b f r → (∀ p ∈ path, ¬Relation.ReflTransGen (Met b) (.ref p) f) →
      f.reduceOn b path = r
  | .blank, _ => by rw [reduceOn]
  | .const _, _ => by rw [reduceOn]
  | .free h, _ => by rw [reduceOn_ref, h]
  | @Gives.bound _ name f _ h hf, hp => by
    have hname : name ∉ path := fun hm => hp name hm .refl
    have hstep : Met b f (.ref name) := .bound h
    have hp' : ∀ p ∈ name :: path, ¬Relation.ReflTransGen (Met b) (.ref p) f := by
      intro p hm hr
      rcases List.mem_cons.mp hm with rfl | hm
      · -- a way from the name back to its formula would go on to the name itself
        exact (Gives.bound h hf).not_met_self (.tail' hr hstep)
      · exact hp p hm (.tail hr hstep)
    simpa [reduceOn_ref, h, hname] using hf.reduceOn_eq hp'
  | .stopped h, hp => by
    rw [reduceOn_app, h.demandAll_eq fun p hm a ha hr => hp p hm (.tail hr (.argument ha))]
  | .applied h, hp => by
    rw [reduceOn_app, h.demandAll_eq fun p hm a ha hr => hp p hm (.tail hr (.argument ha))]

theorem GivesAll.demandAll_eq {user : String} {fs : List Formula}
    {r : Except EvalError (List Int64)} {path : List String} : GivesAll b user fs r →
      (∀ p ∈ path, ∀ a, Turn b a fs → ¬Relation.ReflTransGen (Met b) (.ref p) a) →
      demandAll b path user fs = r
  | .nil _, _ => by rw [demandAll]
  | .failed hf, hp => by
    rw [demandAll_cons, hf.reduceOn_eq fun p hm => hp p hm _ .head]
  | .missing hf, hp => by
    rw [demandAll_cons, hf.reduceOn_eq fun p hm => hp p hm _ .head]
    rfl
  | .misfit (r := r) hf hb hc, hp => by
    rw [demandAll_cons, hf.reduceOn_eq fun p hm => hp p hm _ .head]
    cases r with
    | blank => exact absurd rfl hb
    | const n => cases hc
    | ref name => rfl
    | app op args => rfl
  | .cut hf hfs, hp => by
    rw [demandAll_cons, hf.reduceOn_eq fun p hm => hp p hm _ .head]
    simp only [demand, hfs.demandAll_eq fun p hm a ha => hp p hm a (.tail hf ha)]
    rfl
  | .cons hf hfs, hp => by
    rw [demandAll_cons, hf.reduceOn_eq fun p hm => hp p hm _ .head]
    simp only [demand, hfs.demandAll_eq fun p hm a ha => hp p hm a (.tail hf ha)]
    rfl

end

/-- Reduction finds the outcome of a formula that has one. -/
theorem Gives.reduce_eq {f : Formula} {r : Except EvalError Formula} (h : Gives b f r) :
    f.reduce b = r := h.reduceOn_eq (by simp)

/-! ### Outcomes are not circular -/

mutual

theorem Gives.ne_circular {f : Formula} {r : Except EvalError Formula}
    (hb : ∀ name g, b.find? name = some g → ∀ op ∈ g.ops, op.NeverCircular) :
    Gives b f r → (∀ op ∈ f.ops, op.NeverCircular) → ∀ name, r ≠ .error (.circular name)
  | .blank, _, _ => by simp
  | .const _, _, _ => by simp
  | .free _, _, _ => by simp
  | .bound h hf, _, name => hf.ne_circular hb (hb _ _ h) name
  | .stopped (e := e) h, hf, name => by
    have he := h.ne_circular hb (fun op hop => hf op (by simp [hop])) name
    simpa using he
  | @Gives.applied _ op _ ns h, hf, name => by
    have hop : op.apply ns ≠ .error (.circular name) := hf op (by simp) ns name
    cases ha : op.apply ns with
    | error e => simpa [ha, Except.map] using hop
    | ok n => simp [Except.map]

theorem GivesAll.ne_circular {user : String} {fs : List Formula}
    {r : Except EvalError (List Int64)}
    (hb : ∀ name g, b.find? name = some g → ∀ op ∈ g.ops, op.NeverCircular) :
    GivesAll b user fs r → (∀ op ∈ fs.flatMap ops, op.NeverCircular) →
      ∀ name, r ≠ .error (.circular name)
  | .nil _, _, _ => by simp
  | .failed hf, hfs, name => by
    have he := hf.ne_circular hb (fun op hop => hfs op (by simp [hop])) name
    simpa using he
  | .missing _, _, _ => by simp
  | .misfit _ _ _, _, _ => by simp
  | .cut _ h, hfs, name => h.ne_circular hb (fun op hop => hfs op (by simp_all)) name
  | .cons _ _, _, _ => by simp

end

/-- Reduction without its path would be the same where it ends, and would not end where reduction
reports a circle. -/
theorem reduce_eq_iff_gives (b : Bindings) (f : Formula)
    (hf : ∀ op ∈ f.ops, op.NeverCircular)
    (hb : ∀ name g, b.find? name = some g → ∀ op ∈ g.ops, op.NeverCircular) :
    (∀ r, (∀ name, r ≠ .error (.circular name)) → (f.reduce b = r ↔ Gives b f r)) ∧
      ((∃ name, f.reduce b = .error (.circular name)) ↔ ¬∃ r, Gives b f r) := by
  refine ⟨fun r hr => ⟨?_, Gives.reduce_eq⟩, ?_, ?_⟩
  · rintro rfl
    exact (circular_or_gives_reduce b f).resolve_left fun ⟨name, hc⟩ => hr name hc
  · rintro ⟨name, hc⟩ ⟨r, hr⟩
    exact hr.ne_circular hb hf name (hr.reduce_eq.symm.trans hc)
  · intro hn
    exact (circular_or_gives_reduce b f).resolve_right fun hg => hn ⟨_, hg⟩

/-- Two names that stand for each other, one of them in a sum. -/
def twoCycle : Bindings :=
  .ofList [("A0", .ref "A1"), ("A1", .app .plus [.ref "A0", .const 1])]

theorem twoCycle_no_outcome :
    (Formula.ref "A0").reduce twoCycle = .error (.circular "A0") ∧
      ¬∃ r, Gives twoCycle (.ref "A0") r := by
  have h0 : twoCycle.find? "A0" = some (.ref "A1") := by
    simp [twoCycle, Bindings.ofList, Bindings.ofEntries, Bindings.latest]
  have h1 : twoCycle.find? "A1" = some (.app .plus [.ref "A0", .const 1]) := by
    simp [twoCycle, Bindings.ofList, Bindings.ofEntries, Bindings.latest, List.lookup_cons]
  have hc : (Formula.ref "A0").reduce twoCycle = .error (.circular "A0") := by
    simp [reduce, reduceOn_ref, reduceOn_app, demandAll_cons, h0, h1]
  refine ⟨hc, (reduce_eq_iff_gives twoCycle (.ref "A0") ?_ ?_).2.1 ⟨_, hc⟩⟩
  · simp
  · intro name g hg op hop
    have hmem := Bindings.mem_of_lookup_eq_some hg
    simp only [Bindings.latest, List.map_cons, List.map_nil, List.mem_cons, List.not_mem_nil,
      String.reduceEq, or_false, if_false, Prod.mk.injEq] at hmem
    obtain ⟨-, rfl⟩ | ⟨-, rfl⟩ := hmem
    · simp at hop
    · obtain rfl : op = .plus := by simpa using hop
      simp [Operation.NeverCircular, Operation.plus]

end Formula

end FormulaGrid
