import FormulaGrid.Formula.Reduce
import FormulaGrid.Proofs.Success

/-!
# Proofs.BigStep — outcomes without a guard

`Gives b f r` says what a formula comes to under bindings as rules and not as a program: no path is
kept, so a formula whose references run in a circle has no outcome at all.  An outcome is unique
(`Gives.unique`), and what reduction comes to is one unless it is a circular reference
(`gives_of_reduceOn`).
-/

namespace FormulaGrid.Formula

mutual

/-- The outcome of a formula under bindings: a formula or an error. -/
inductive Gives (b : Bindings) : Formula → Except EvalError Formula → Prop
  | blank : Gives b .blank (.ok .blank)
  | const (n : Int64) : Gives b (.const n) (.ok (.const n))
  | free {name : String} (h : b.find? name = none) : Gives b (.ref name) (.ok (.ref name))
  | bound {name : String} {f : Formula} {r : Except EvalError Formula}
      (h : b.find? name = some f) (hf : Gives b f r) : Gives b (.ref name) r
  | stopped {op : Operation} {args : List Formula} {e : EvalError}
      (h : GivesAll b op.name args (.error e)) : Gives b (.app op args) (.error e)
  | applied {op : Operation} {args : List Formula} {ns : List Int64}
      (h : GivesAll b op.name args (.ok ns)) : Gives b (.app op args) ((op.apply ns).map .const)

/-- The numbers that arguments give to `user` from left to right, or the first error among them: that
of an argument, or the one `user` has for an argument that is no constant. -/
inductive GivesAll (b : Bindings) : String → List Formula → Except EvalError (List Int64) → Prop
  | nil (user : String) : GivesAll b user [] (.ok [])
  | failed {user : String} {f : Formula} {fs : List Formula} {e : EvalError}
      (hf : Gives b f (.error e)) : GivesAll b user (f :: fs) (.error e)
  | missing {user : String} {f : Formula} {fs : List Formula} (hf : Gives b f (.ok .blank)) :
      GivesAll b user (f :: fs) (.error (.notConstant user none))
  | misfit {user : String} {f r : Formula} {fs : List Formula} (hf : Gives b f (.ok r))
      (hb : r ≠ .blank) (hc : r.isConst = false) :
      GivesAll b user (f :: fs) (.error (.notConstant user (some r.render)))
  | cut {user : String} {f : Formula} {fs : List Formula} {n : Int64} {e : EvalError}
      (hf : Gives b f (.ok (.const n))) (hfs : GivesAll b user fs (.error e)) :
      GivesAll b user (f :: fs) (.error e)
  | cons {user : String} {f : Formula} {fs : List Formula} {n : Int64} {ns : List Int64}
      (hf : Gives b f (.ok (.const n))) (hfs : GivesAll b user fs (.ok ns)) :
      GivesAll b user (f :: fs) (.ok (n :: ns))

end

variable {b : Bindings}

/-! ### Outcomes are unique -/

mutual

theorem Gives.unique {f : Formula} {r r' : Except EvalError Formula} :
    Gives b f r → Gives b f r' → r = r'
  | .blank, .blank => rfl
  | .const _, .const _ => rfl
  | .free _, .free _ => rfl
  | .free h, .bound h' _ => by simp [h] at h'
  | .bound h _, .free h' => by simp [h] at h'
  | .bound h hf, .bound h' hf' => by
    rw [h] at h'
    cases h'
    exact hf.unique hf'
  | .stopped h, .stopped h' => by cases h.unique h'; rfl
  | .stopped h, .applied h' => by cases h.unique h'
  | .applied h, .stopped h' => by cases h.unique h'
  | .applied h, .applied h' => by cases h.unique h'; rfl

theorem GivesAll.unique {user : String} {fs : List Formula}
    {r r' : Except EvalError (List Int64)} : GivesAll b user fs r → GivesAll b user fs r' → r = r'
  | .nil _, .nil _ => rfl
  | .failed hf, h' => by
    cases h' with
    | failed hf' => cases hf.unique hf'; rfl
    | missing hf' | misfit hf' | cut hf' | cons hf' => cases hf.unique hf'
  | .missing hf, h' => by
    cases h' with
    | failed hf' | cut hf' | cons hf' => cases hf.unique hf'
    | missing => rfl
    | misfit hf' hb' => cases hf.unique hf'; exact absurd rfl hb'
  | .misfit hf hb hc, h' => by
    cases h' with
    | failed hf' => cases hf.unique hf'
    | missing hf' => cases hf.unique hf'; exact absurd rfl hb
    | misfit hf' => cases hf.unique hf'; rfl
    | cut hf' | cons hf' => cases hf.unique hf'; cases hc
  | .cut hf hfs, h' => by
    cases h' with
    | failed hf' | missing hf' => cases hf.unique hf'
    | misfit hf' _ hc' => cases hf.unique hf'; cases hc'
    | cut _ hfs' => exact hfs.unique hfs'
    | cons _ hfs' => cases hfs.unique hfs'
  | .cons hf hfs, h' => by
    cases h' with
    | failed hf' | missing hf' => cases hf.unique hf'
    | misfit hf' _ hc' => cases hf.unique hf'; cases hc'
    | cut _ hfs' => cases hfs.unique hfs'
    | cons hf' hfs' => cases hf.unique hf'; cases hfs.unique hfs'; rfl

end

/-! ### The equations of reduction -/

theorem reduceOn_app (b : Bindings) (path : List String) (op : Operation) (args : List Formula) :
    reduceOn b path (.app op args) =
      match demandAll b path op.name args with
      | .error e => .error e
      | .ok ns => (op.apply ns).map .const := by
  rw [reduceOn]
  cases demandAll b path op.name args with
  | error e => rfl
  | ok ns => cases h : op.apply ns <;> simp [h, bind, Except.bind, Except.map, pure, Except.pure]

theorem demandAll_cons (b : Bindings) (path : List String) (user : String) (f : Formula)
    (fs : List Formula) :
    demandAll b path user (f :: fs) =
      match reduceOn b path f with
      | .error e => .error e
      | .ok r =>
        match r.demand user with
        | .error e => .error e
        | .ok n => (demandAll b path user fs).map (n :: ·) := by
  rw [demandAll]
  cases reduceOn b path f with
  | error e => rfl
  | ok r =>
    cases h : r.demand user with
    | error e => simp [h, bind, Except.bind]
    | ok n =>
      cases hs : demandAll b path user fs <;>
        simp [h, bind, Except.bind, Except.map, pure, Except.pure]

theorem demand_eq_ok_iff {user : String} {r : Formula} {n : Int64} :
    r.demand user = .ok n ↔ r = .const n := by
  cases r <;> simp [demand]

/-! ### Reduction gives outcomes -/

theorem GivesAll.of_demand {user : String} {f r : Formula} {fs : List Formula} {e : EvalError}
    (hf : Gives b f (.ok r)) (hr : r.demand user = .error e) :
    GivesAll b user (f :: fs) (.error e) := by
  cases r with
  | blank => cases hr; exact .missing hf
  | const n => cases hr
  | ref name => cases hr; exact .misfit hf (by simp) rfl
  | app op args => cases hr; exact .misfit hf (by simp) rfl

/-- What reduction comes to on any path is an outcome, unless it is a circular reference. -/
theorem gives_of_reduceOn (b : Bindings) :
    (∀ path f, (∀ name, reduceOn b path f ≠ .error (.circular name)) →
      Gives b f (reduceOn b path f)) ∧
    ∀ path user fs, (∀ name, demandAll b path user fs ≠ .error (.circular name)) →
      GivesAll b user fs (demandAll b path user fs) := by
  refine reduceOn.mutual_induct b _ _ ?blank ?const ?unbound ?met ?bound ?app ?nil ?cons
  case blank =>
    intro path _
    rw [reduceOn]
    exact .blank
  case const =>
    intro path n _
    rw [reduceOn]
    exact .const n
  case unbound =>
    intro path name h _
    rw [reduceOn_ref, h]
    exact .free h
  case met =>
    intro path name f h hp hc
    -- a name that is met again gives the very error that is ruled out
    refine absurd ?_ (hc name)
    simp [reduceOn_ref, h, hp]
  case bound =>
    intro path name f h hp ih hc
    have he : reduceOn b path (.ref name) = reduceOn b (name :: path) f := by
      simp [reduceOn_ref, h, hp]
    rw [he] at hc ⊢
    exact .bound h (ih hc)
  case app =>
    intro path op args ih hc
    rw [reduceOn_app] at hc ⊢
    cases hd : demandAll b path op.name args with
    | error e =>
      rw [hd] at ih
      exact .stopped (ih (by simpa [hd] using hc))
    | ok ns =>
      rw [hd] at ih
      exact .applied (ih (by simp))
  case nil =>
    intro path user _
    rw [demandAll]
    exact .nil user
  case cons =>
    intro path user f fs ihf ihfs hc
    rw [demandAll_cons] at hc ⊢
    cases hr : reduceOn b path f with
    | error e =>
      rw [hr] at ihf
      exact .failed (ihf (by simpa [hr] using hc))
    | ok r =>
      have hf : Gives b f (.ok r) := hr ▸ ihf (by simp [hr])
      cases hd : r.demand user with
      | error e =>
        simp only [hd]
        exact .of_demand hf hd
      | ok n =>
        obtain rfl := demand_eq_ok_iff.1 hd
        cases hs : demandAll b path user fs with
        | error e =>
          rw [hs] at ihfs
          exact .cut hf (ihfs (by simpa [hr, hs, demand, Except.map] using hc))
        | ok ns =>
          rw [hs] at ihfs
          exact .cons hf (ihfs (by simp))

theorem circular_or_gives_reduce (b : Bindings) (f : Formula) :
    (∃ name, f.reduce b = .error (.circular name)) ∨ Gives b f (f.reduce b) := by
  by_cases hc : ∃ name, f.reduce b = .error (.circular name)
  · exact .inl hc
  · exact .inr ((gives_of_reduceOn b).1 [] f fun name h => hc ⟨name, h⟩)

theorem gives_of_reduce_eq_ok {f r : Formula} (h : f.reduce b = .ok r) : Gives b f (.ok r) := by
  rcases circular_or_gives_reduce b f with ⟨name, hc⟩ | hg
  · simp [h] at hc
  · exact h ▸ hg

/-! ### Outcomes taken apart -/

theorem Gives.of_ref {name : String} {f : Formula} {o : Except EvalError Formula}
    (h : Gives b (.ref name) o) (hf : b.find? name = some f) : Gives b f o := by
  cases h with
  | free hnone => simp [hf] at hnone
  | bound hg h =>
    obtain rfl := Option.some.inj (hf.symm.trans hg)
    exact h

theorem GivesAll.exists_const {user : String} {fs : List Formula} {ns : List Int64}
    (h : GivesAll b user fs (.ok ns)) : ∀ f ∈ fs, ∃ n, Gives b f (.ok (.const n)) := by
  induction fs generalizing ns with
  | nil => simp
  | cons g fs ih =>
    cases h with
    | cons hg hfs => exact List.forall_mem_cons.mpr ⟨⟨_, hg⟩, ih hfs⟩

theorem Gives.exists_args {op : Operation} {args : List Formula} {r : Formula}
    (h : Gives b (.app op args) (.ok r)) :
    (∃ ns n, op.apply ns = .ok n) ∧ ∀ a ∈ args, ∃ n, Gives b a (.ok (.const n)) := by
  generalize hr : (Except.ok r : Except EvalError Formula) = r' at h
  cases h with
  | stopped => cases hr
  | applied hargs =>
    obtain ⟨n, hn, -⟩ := Except.map_eq_ok_iff.mp hr.symm
    exact ⟨⟨_, n, hn⟩, hargs.exists_const⟩

/-- An operation with a value has no blank argument. -/
theorem Gives.blank_not_mem {op : Operation} {args : List Formula} {r : Formula}
    (h : Gives b (.app op args) (.ok r)) : Formula.blank ∉ args := by
  intro hm
  obtain ⟨n, hn⟩ := h.exists_args.2 _ hm
  cases hn

end FormulaGrid.Formula
