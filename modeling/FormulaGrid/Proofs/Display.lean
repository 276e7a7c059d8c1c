import FormulaGrid.Proofs.BigStep
import FormulaGrid.Proofs.Edits
import FormulaGrid.Proofs.Reread

/-!
# Proofs.Display — formulas that survive their own text

The text of a formula is read as the same formula if none of its operations is reformed on the way
(`reread_eq_self`).  Evaluation refuses every formula of a text with an operation that is reformed
(`everywhere_kept_of_gives`), so what a cell took from a text can be read off again
(`Sheet.parse_render_of_lastEdit`).
-/

namespace FormulaGrid

open Catalog

namespace Formula

/-- Every operation in a formula, with its arguments, satisfies `p`. -/
inductive Everywhere (p : Operation → List Formula → Prop) : Formula → Prop
  | leaf {f : Formula} (h : f.IsLeaf) : Everywhere p f
  | app {op : Operation} {args : List Formula} (h : p op args)
      (hargs : ∀ a ∈ args, Everywhere p a) : Everywhere p (.app op args)

/-- An operation over `args` that is shown so that it can be read again: an operator has something to
stand between, a call has an argument, and no comma node is among the arguments of a call or of
another comma. -/
def Kept (op : Operation) (args : List Formula) : Prop :=
  (op.style = .between → args ≠ [blank, blank]) ∧ (op.style = .call → args ≠ [blank]) ∧
    (op.style ≠ .between → ∀ fs, app .comma fs ∉ args)

theorem parts_eq_singleton {f : Formula} (h : Written f) (hf : f.reread = f)
    (hno : ∀ fs, f ≠ app .comma fs) : f.parts = [f] := by
  rw [Formula.parts, hf]
  rcases unpack_written h with ⟨args, rfl, -⟩ | ⟨hsole, -⟩
  · exact absurd rfl (hno args)
  · exact hsole

theorem flatMap_parts {args : List Formula} (h : ∀ a ∈ args, Written a)
    (hargs : ∀ a ∈ args, a.reread = a) (hno : ∀ fs, app .comma fs ∉ args) :
    args.flatMap Formula.parts = args := by
  induction args with
  | nil => rfl
  | cons a args ih =>
    have ha := parts_eq_singleton (h a (by simp)) (hargs a (by simp))
      fun fs e => hno fs (by simp [e])
    have hrest := ih (fun x hx => h x (by simp [hx])) (fun x hx => hargs x (by simp [hx]))
      fun fs hm => hno fs (by simp [hm])
    rw [List.flatMap_cons, ha, hrest, List.singleton_append]

/-- A formula whose operations are all kept is what its text is read as. -/
theorem reread_eq_self {f : Formula} (h : Written f) (hf : f.Everywhere Kept) : f.reread = f := by
  induction h with
  | blank => exact reread_leaf trivial
  | const => exact reread_leaf trivial
  | ref => exact reread_leaf trivial
  | alone hs => exact reread_alone hs
  | pair hs hleaf _ _ _ ihr =>
    cases hf with
    | leaf h => exact absurd h id
    | app hkept hargs =>
      have hnot := hkept.1 (style_symbol hs)
      rw [reread_pair hs hleaf fun hboth => hnot (by rw [hboth.1, hboth.2]),
        ihr (hargs _ (by simp))]
  | call hop _ hw _ ih =>
    cases hf with
    | leaf h => exact absurd h id
    | app hkept hargs =>
      have hstyle := style_average hop
      have hno := hkept.2.2 (by simp [hstyle])
      rw [reread_call hstyle (hkept.2.1 hstyle),
        flatMap_parts hw (fun a ha => ih a ha (hargs a ha)) hno]
  | list _ hw ih =>
    cases hf with
    | leaf h => exact absurd h id
    | app hkept hargs =>
      have hno := hkept.2.2 (by decide)
      rw [reread_list, flatMap_parts hw (fun a ha => ih a ha (hargs a ha)) hno]

/-! ### Evaluation refuses what is reformed -/

variable {b : Bindings}

theorem not_gives_comma {fs : List Formula} {r : Formula} : ¬Gives b (.app .comma fs) (.ok r) := by
  intro h
  obtain ⟨⟨ns, n, hn⟩, -⟩ := h.exists_args
  cases hn

/-- A formula that comes to something has kept operations only: a blank argument is no number, and a
comma node has no value. -/
theorem everywhere_kept_of_gives {f r : Formula} (h : Gives b f (.ok r)) : f.Everywhere Kept := by
  induction f using Formula.ind generalizing r with
  | blank => exact .leaf trivial
  | const => exact .leaf trivial
  | ref => exact .leaf trivial
  | app op args ih =>
    obtain ⟨-, hargs⟩ := h.exists_args
    have hblank := h.blank_not_mem
    have hcomma : ∀ fs, app .comma fs ∉ args := by
      intro fs hm
      obtain ⟨n, hn⟩ := hargs _ hm
      exact not_gives_comma hn
    refine .app ⟨fun _ e => hblank (by simp [e]), fun _ e => hblank (by simp [e]),
      fun _ => hcomma⟩ fun a ha => ?_
    obtain ⟨n, hn⟩ := hargs a ha
    exact ih a ha hn

/-- The text of an evaluated formula of a text is read as the formula. -/
theorem parse_render_of_reduce {text : String} {f r : Formula}
    (hf : standard.parse text = .ok f) (hr : f.reduce b = .ok r) :
    standard.parse f.render = .ok f := by
  have hw := Builder.written_of_parse hf
  have hkept := everywhere_kept_of_gives (gives_of_reduce_eq_ok hr)
  rw [parse_render hw, reread_eq_self hw hkept]

end Formula

namespace Sheet

/-- What the last edit put into a cell from a text is the formula of that text, and it is read again from the
text that is shown. -/
theorem parse_render_of_lastEdit {o : SheetOptions} {s : Sheet}
    (hs : create standard.parse o = .ok s) {edits : List Edit} {a : Cell} {text : String}
    (h : s.lastEdit edits a = some (.enter a text)) :
    ∃ f, standard.parse text = .ok f ∧ (s.run edits).formulaAt a = .ok f ∧
      standard.parse f.render = .ok f := by
  obtain ⟨before, t, ht, -, hlast⟩ := exists_of_lastEdit h
  obtain ⟨f, hf, hu⟩ := enter_eq_ok_iff.mp (Except.toOption_eq_some_iff.mp ht)
  obtain ⟨i, v, hi, hv, rfl⟩ := update_eq_ok_iff.mp hu
  rw [read_run, read_of_create hs] at hf
  refine ⟨f, hf, ?_, Formula.parse_render_of_reduce hf hv⟩
  rw [hlast, formulaAt_set, if_pos hi]

/-- A row of two cells that reads the standard operations. -/
def shortRow : Sheet where
  read := standard.parse
  extent := .oneByTwo
  initial := .blank
  builtins := []
  cells := Vector.replicate _ .blank

/-- An operator over a number and a call. -/
def onePlusMean : Formula := .app .plus [.const 1, .app .mean [.const 2, .const 4]]

theorem shortRow_mean_text_kept :
    (shortRow.run [.enter ⟨0, 0⟩ "1 + MEAN(2, 4)", .clear ⟨0, 1⟩]).formulaAt ⟨0, 0⟩ =
        .ok onePlusMean ∧
      standard.parse onePlusMean.render = .ok onePlusMean := by
  have hmean : Formula.Written (.app .mean [.const 2, .const 4]) :=
    .call (.inl rfl) (by simp) (by simp [Formula.Written.const]) (by simp)
  have hw : Formula.Written onePlusMean := .pair (s := .plus) (by decide) trivial (.const (by decide)) hmean
  have hparse : standard.parse "1 + MEAN(2, 4)" = .ok onePlusMean := Formula.parse_render hw
  have hreduce : onePlusMean.reduce shortRow.bindings = .ok (.const 4) := by
    simp [onePlusMean, Formula.reduce, Formula.reduceOn_app, Formula.demandAll_cons, Formula.reduceOn,
      Formula.demandAll, Formula.demand, Operation.plus, Operation.mean, Statistics.mean,
      Arithmetic.sum, Except.map]
  have henter : shortRow.perform (.enter ⟨0, 0⟩ "1 + MEAN(2, 4)") =
      some (shortRow.set ⟨0, by decide⟩ onePlusMean) := perform_enter rfl hparse hreduce
  have hlast : shortRow.lastEdit [.enter ⟨0, 0⟩ "1 + MEAN(2, 4)", .clear ⟨0, 1⟩] ⟨0, 0⟩ =
      some (.enter ⟨0, 0⟩ "1 + MEAN(2, 4)") := by
    rw [lastEdit_cons_of_some henter]
    rfl
  obtain ⟨f, hf, hcell, hshown⟩ := parse_render_of_lastEdit (o := ⟨1, 2, .blank, []⟩) rfl hlast
  obtain rfl := Except.ok.inj (hparse.symm.trans hf)
  exact ⟨hcell, hshown⟩

end Sheet

end FormulaGrid
