import FormulaGrid.Proofs.Reach

/-!
# Proofs.Extension — reduction under more bindings

Where more names are bound, the names bound before keep their formulas, and an outcome can change only by way
of a name that was free: it is that name, or the error of an argument that came to it
(`reduceOn_of_extends`).  All other outcomes are settled and stay (`reduce_of_extends`).
-/

namespace FormulaGrid

/-- To append entries keeps the formulas of the names that have one. -/
theorem Bindings.find?_ofEntries_append (entries more : List (String × Formula)) (name : String)
    (g : Formula) (h : (ofEntries entries).find? name = some g) :
    (ofEntries (entries ++ more)).find? name = some g := by
  have hlookup : entries.lookup name = some g := h
  show (entries ++ more).lookup name = some g
  rw [List.lookup_append, hlookup, Option.some_or]

namespace Formula

/-- An outcome that waits for a name: the free name itself, or the error of an argument that came to it. -/
inductive Awaits (name : String) : Except EvalError Formula → Prop
  | free : Awaits name (.ok (.ref name))
  | argument (user : String) : Awaits name (.error (.notConstant user (some name)))

/-- An outcome in which no name is left over: a constant, a blank, or an error that shows no formula. -/
def Settled : Except EvalError Formula → Prop
  | .ok .blank | .ok (.const _) => True
  | .error .divisionByZero | .error .argumentList | .error (.circular _) => True
  | .error (.notConstant _ none) => True
  | _ => False

theorem Awaits.not_settled {name : String} {o : Except EvalError Formula} (h : Awaits name o) :
    ¬Settled o := by
  cases h with
  | free => exact id
  | argument user => exact id

theorem render_ref (name : String) : (ref name).render = name := by
  rw [render, chars_ref, String.ofList_toList]

variable {b b' : Bindings}

/-- What a formula comes to differs under two bindings only by way of a name that the formula reaches, that
is free under the first ones and bound under the others, and that the first outcome waits for. -/
theorem reduceOn_of_extends (hb : ∀ name g, b.find? name = some g → b'.find? name = some g) :
    (∀ path f, reduceOn b' path f = reduceOn b path f ∨
      ∃ name g, Reaches b f name ∧ b.find? name = none ∧ b'.find? name = some g ∧
        Awaits name (reduceOn b path f)) ∧
    ∀ path user fs, demandAll b' path user fs = demandAll b path user fs ∨
      ∃ name g, (∃ f ∈ fs, Reaches b f name) ∧ b.find? name = none ∧ b'.find? name = some g ∧
        ∃ user', demandAll b path user fs = .error (.notConstant user' (some name)) := by
  refine reduceOn.mutual_induct b _ _ ?blank ?const ?unbound ?met ?bound ?app ?nil ?cons
  case blank =>
    intro path
    rw [reduceOn, reduceOn]
    exact .inl rfl
  case const =>
    intro path n
    rw [reduceOn, reduceOn]
    exact .inl rfl
  case unbound =>
    intro path name h
    rw [reduceOn_ref, reduceOn_ref, h]
    cases h' : b'.find? name with
    | none => exact .inl rfl
    | some g => exact .inr ⟨name, g, .here (by simp), h, h', .free⟩
  case met =>
    intro path name f h hp
    left
    simp [reduceOn_ref, h, hb name f h, hp]
  case bound =>
    intro path name f h hp ih
    have hstep : ∀ c : Bindings, c.find? name = some f →
        reduceOn c path (.ref name) = reduceOn c (name :: path) f := by
      intro c hc
      simp [reduceOn_ref, hc, hp]
    rw [hstep b h, hstep b' (hb name f h)]
    rcases ih with heq | ⟨free, g, hr, hfree⟩
    · exact .inl heq
    · exact .inr ⟨free, g, reaches_ref_iff.mpr (.inr ⟨f, h, hr⟩), hfree⟩
  case app =>
    intro path op args ih
    rw [reduceOn_app, reduceOn_app]
    rcases ih with heq | ⟨free, g, hr, hnone, hsome, user, herror⟩
    · exact .inl (by rw [heq])
    · rw [herror]
      exact .inr ⟨free, g, reaches_app_iff.mpr hr, hnone, hsome, .argument user⟩
  case nil =>
    intro path user
    rw [demandAll, demandAll]
    exact .inl rfl
  case cons =>
    intro path user f fs ihf ihfs
    rw [demandAll_cons, demandAll_cons]
    rcases ihf with heq | ⟨free, g, hr, hnone, hsome, hawaits⟩
    · rw [heq]
      -- the first argument gives the same under both, and if it gives a number, the others decide
      cases hf : reduceOn b path f with
      | error e => exact .inl rfl
      | ok r =>
        cases hd : r.demand user with
        | error e =>
          left
          simp only [hd]
        | ok n =>
          simp only [hd]
          rcases ihfs with hrest | ⟨free, g, ⟨a, ha, hr⟩, hnone, hsome, user', herror⟩
          · exact .inl (by rw [hrest])
          · refine .inr ⟨free, g, ⟨a, by simp [ha], hr⟩, hnone, hsome, user', ?_⟩
            rw [herror]
            rfl
    · refine .inr ⟨free, g, ⟨f, by simp, hr⟩, hnone, hsome, ?_⟩
      generalize reduceOn b path f = o at hawaits
      cases hawaits with
      | free => exact ⟨user, by simp only [demand, render_ref]⟩
      | argument user' => exact ⟨user', rfl⟩

/-- Under more bindings a settled outcome stays as it is, and an outcome that changes is one that waits for a
name: a name that the formula reaches, that was free and is bound now. -/
theorem reduce_of_extends (hb : ∀ name g, b.find? name = some g → b'.find? name = some g) (f : Formula) :
    (Settled (f.reduce b) → f.reduce b' = f.reduce b) ∧
      (f.reduce b' ≠ f.reduce b → ∃ name g, Reaches b f name ∧ b.find? name = none ∧
        b'.find? name = some g ∧ Awaits name (f.reduce b)) := by
  have hreduce := (reduceOn_of_extends hb).1 [] f
  refine ⟨fun hsettled => ?_, fun hchanged => hreduce.resolve_left hchanged⟩
  rcases hreduce with heq | ⟨name, g, -, -, -, hawaits⟩
  · exact heq
  · exact absurd hsettled hawaits.not_settled

/-- A sum of a bound name and a free one, and a name on a circle. -/
def openEntries : List (String × Formula) :=
  [("A0", .app .plus [.ref "B0", .ref "k"]), ("B0", .const 4), ("C0", .ref "C0")]

theorem openEntries_outcomes :
    (Formula.ref "C0").reduce (.ofEntries (openEntries ++ [("k", .const 3)])) = .error (.circular "C0") ∧
      (Formula.ref "A0").reduce (.ofEntries (openEntries ++ [("k", .const 3)])) = .ok (.const 7) ∧
      ∃ name g, Reaches (.ofEntries openEntries) (.ref "A0") name ∧
        (Bindings.ofEntries openEntries).find? name = none ∧
        (Bindings.ofEntries (openEntries ++ [("k", .const 3)])).find? name = some g ∧
        Awaits name ((Formula.ref "A0").reduce (.ofEntries openEntries)) := by
  have hextends := Bindings.find?_ofEntries_append openEntries [("k", .const 3)]
  have hA : (Bindings.ofEntries openEntries).find? "A0" = some (.app .plus [.ref "B0", .ref "k"]) := rfl
  have hB : (Bindings.ofEntries openEntries).find? "B0" = some (.const 4) := rfl
  have hC : (Bindings.ofEntries openEntries).find? "C0" = some (.ref "C0") := rfl
  have hfree : (Bindings.ofEntries openEntries).find? "k" = none := rfl
  have hk : (Bindings.ofEntries (openEntries ++ [("k", .const 3)])).find? "k" = some (.const 3) := rfl
  have hcircle : (Formula.ref "C0").reduce (.ofEntries openEntries) = .error (.circular "C0") := by
    simp [reduce, reduceOn_ref, hC]
  have hwaits : (Formula.ref "A0").reduce (.ofEntries openEntries) =
      .error (.notConstant "+" (some "k")) := by
    simp [reduce, reduceOn_ref, reduceOn_app, demandAll_cons, hA, hB, hfree, reduceOn, demand, render_ref,
      Except.map, Operation.plus]
  have hseven : (Formula.ref "A0").reduce (.ofEntries (openEntries ++ [("k", .const 3)])) =
      .ok (.const 7) := by
    simp [reduce, reduceOn_ref, reduceOn_app, demandAll_cons, hextends _ _ hA, hextends _ _ hB, hk, reduceOn,
      demandAll, demand, Except.map, Operation.plus, Arithmetic.sum]
  refine ⟨?_, hseven, (reduce_of_extends hextends (.ref "A0")).2 ?_⟩
  · rw [(reduce_of_extends hextends (.ref "C0")).1, hcircle]
    rw [hcircle]
    trivial
  · rw [hseven, hwaits]
    simp

end Formula

end FormulaGrid
