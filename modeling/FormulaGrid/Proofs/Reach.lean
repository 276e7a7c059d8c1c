import FormulaGrid.Proofs.CycleGuard

/-!
# Proofs.Reach — names that a formula depends on

`Reaches b f name` says that a chain of references leads from the formula `f` to `name`.  Reduction
looks up names on such chains only (`reduceOn_congr`).  If a formula comes to something and a name
on its chains is then bound to the formula itself, it is evaluated on its own way
(`Gives.met_of_reaches`).
-/

namespace FormulaGrid.Formula

/-- A chain of references leads from a formula to a name: the first is one in the formula, and each
other one is in the formula that the name before it is bound to. -/
inductive Reaches (b : Bindings) : Formula → String → Prop
  | here {f : Formula} {name : String} (h : name ∈ f.refs) : Reaches b f name
  | step {f g : Formula} {next name : String} (h : next ∈ f.refs) (hg : b.find? next = some g)
      (hr : Reaches b g name) : Reaches b f name

variable {b b' : Bindings}

theorem reaches_ref_iff {name target : String} :
    Reaches b (.ref name) target ↔
      target = name ∨ ∃ f, b.find? name = some f ∧ Reaches b f target := by
  constructor
  · intro h
    cases h with
    | here h => exact .inl (by simpa using h)
    | step h hg hr =>
      obtain rfl : _ = name := by simpa using h
      exact .inr ⟨_, hg, hr⟩
  · rintro (rfl | ⟨f, hf, hr⟩)
    · exact .here (by simp)
    · exact .step (by simp) hf hr

theorem reaches_app_iff {op : Operation} {args : List Formula} {target : String} :
    Reaches b (.app op args) target ↔ ∃ a ∈ args, Reaches b a target := by
  constructor
  · intro h
    cases h with
    | here h =>
      obtain ⟨a, ha, hm⟩ : ∃ a ∈ args, target ∈ a.refs := by simpa using h
      exact ⟨a, ha, .here hm⟩
    | step h hg hr =>
      obtain ⟨a, ha, hm⟩ : ∃ a ∈ args, _ ∈ a.refs := by simpa using h
      exact ⟨a, ha, .step hm hg hr⟩
  · rintro ⟨a, ha, h⟩
    cases h with
    | here h => exact .here (by simpa using ⟨a, ha, h⟩)
    | step h hg hr => exact .step (by simpa using ⟨a, ha, h⟩) hg hr

/-- Reduction looks up only names that the formula reaches. -/
theorem reduceOn_congr (b b' : Bindings) :
    (∀ path f, (∀ name, Reaches b f name → b'.find? name = b.find? name) →
      reduceOn b' path f = reduceOn b path f) ∧
    ∀ path user fs, (∀ f ∈ fs, ∀ name, Reaches b f name → b'.find? name = b.find? name) →
      demandAll b' path user fs = demandAll b path user fs := by
  refine reduceOn.mutual_induct b _ _ ?blank ?const ?unbound ?met ?bound ?app ?nil ?cons
  case blank =>
    intro path _
    rw [reduceOn, reduceOn]
  case const =>
    intro path n _
    rw [reduceOn, reduceOn]
  case unbound =>
    intro path name h hagree
    rw [reduceOn_ref, reduceOn_ref, hagree name (.here (by simp)), h]
  case met =>
    intro path name f h hp hagree
    simp [reduceOn_ref, hagree name (.here (by simp)), h, hp]
  case bound =>
    intro path name f h hp ih hagree
    have hf := ih fun next hr => hagree next (reaches_ref_iff.mpr (.inr ⟨f, h, hr⟩))
    simp [reduceOn_ref, hagree name (.here (by simp)), h, hp, hf]
  case app =>
    intro path op args ih hagree
    rw [reduceOn_app, reduceOn_app,
      ih fun a ha name hr => hagree name (reaches_app_iff.mpr ⟨a, ha, hr⟩)]
  case nil =>
    intro path user _
    rw [demandAll, demandAll]
  case cons =>
    intro path user f fs ihf ihfs hagree
    rw [demandAll_cons, demandAll_cons, ihf (hagree f (by simp)),
      ihfs fun g hg => hagree g (by simp [hg])]

theorem reduce_congr {f : Formula}
    (h : ∀ name, Reaches b f name → b'.find? name = b.find? name) : f.reduce b' = f.reduce b :=
  (reduceOn_congr b b').1 [] f h

/-- A constant stays one under bindings that agree on all names its formula reaches. -/
theorem Gives.const_congr {f : Formula} {n : Int64} (hf : Gives b f (.ok (.const n)))
    (h : ∀ name, Reaches b f name → b'.find? name = b.find? name) :
    Gives b' f (.ok (.const n)) :=
  gives_of_reduce_eq_ok ((reduce_congr h).trans hf.reduce_eq)

/-! ### Meeting a name that was bound anew -/

variable {target : String}

theorem agree_of_not_reaches {f : Formula} (hb : ∀ name, name ≠ target → b'.find? name = b.find? name)
    (hf : ¬Reaches b f target) (name : String) (hr : Reaches b f name) :
    b'.find? name = b.find? name :=
  hb name fun h => hf (h ▸ hr)

mutual

/-- What comes to a formula under `b` meets every name it reaches, also when that name alone is bound
to something else. -/
theorem Gives.met_of_reaches {f : Formula} {o : Except EvalError Formula}
    (hb : ∀ name, name ≠ target → b'.find? name = b.find? name) :
    Gives b f o → (∀ e, o ≠ .error e) → Reaches b f target →
      Relation.ReflTransGen (Met b') (.ref target) f
  | .blank, _, hr => by cases hr <;> simp at *
  | .const _, _, hr => by cases hr <;> simp at *
  | @Gives.free _ name h, _, hr => by
    rcases reaches_ref_iff.mp hr with rfl | ⟨f, hf, -⟩
    · exact .refl
    · simp [h] at hf
  | @Gives.bound _ name f _ h hf, ho, hr => by
    by_cases hn : target = name
    · rw [hn]
    · obtain ⟨g, hg, hr⟩ := (reaches_ref_iff.mp hr).resolve_left hn
      obtain rfl : f = g := by simpa [h] using hg
      have hstep : Met b' f (.ref name) := .bound ((hb name (Ne.symm hn)).trans h)
      exact (hf.met_of_reaches hb ho hr).tail hstep
  | .stopped _, ho, _ => absurd rfl (ho _)
  | .applied h, _, hr => by
    obtain ⟨a, ha, hm⟩ := h.met_of_reaches hb (by simp) (reaches_app_iff.mp hr)
    exact hm.tail (.argument ha)

theorem GivesAll.met_of_reaches {user : String} {fs : List Formula}
    {o : Except EvalError (List Int64)}
    (hb : ∀ name, name ≠ target → b'.find? name = b.find? name) :
    GivesAll b user fs o → (∀ e, o ≠ .error e) → (∃ a ∈ fs, Reaches b a target) →
      ∃ a, Turn b' a fs ∧ Relation.ReflTransGen (Met b') (.ref target) a
  | .nil _, _, hr => by simp at hr
  | .failed _, ho, _ => absurd rfl (ho _)
  | .missing _, ho, _ => absurd rfl (ho _)
  | .misfit _ _ _, ho, _ => absurd rfl (ho _)
  | .cut _ _, ho, _ => absurd rfl (ho _)
  | .cons (f := f) hf hfs, _, hr => by
    -- the first argument that reaches the name is met; those before it keep their constants
    by_cases hfr : Reaches b f target
    · exact ⟨f, .head, hf.met_of_reaches hb (by simp) hfr⟩
    · obtain ⟨a, ha, hm⟩ := hfs.met_of_reaches hb (by simp) (by simpa [hfr] using hr)
      exact ⟨a, .tail (hf.const_congr (agree_of_not_reaches hb hfr)) ha, hm⟩

end

/-- A formula with a value that reaches a name has no outcome once the name stands for it. -/
theorem Gives.no_outcome_of_reaches {f r : Formula} (hf : Gives b f (.ok r))
    (hb : ∀ name, name ≠ target → b'.find? name = b.find? name)
    (ht : b'.find? target = some f) (hr : Reaches b f target) : ¬∃ o, Gives b' f o := by
  rintro ⟨o, ho⟩
  have hm := hf.met_of_reaches hb (by simp) hr
  exact ho.not_met_self (.head' (.bound ht) hm)

end FormulaGrid.Formula
