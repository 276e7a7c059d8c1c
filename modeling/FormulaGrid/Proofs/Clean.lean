import FormulaGrid.Proofs.Comparison
import FormulaGrid.Proofs.Contents
import FormulaGrid.Proofs.Display

/-!
# Proofs.Clean — what cells hold is clean

A formula is clean if no comma node is in it and none of its operations has a blank argument.  Nothing checks
this when a formula is written, but a formula over the standard operations that comes to something is clean
(`clean_of_gives`), and a formula that comes to nothing is not let into a cell.  So over these operations a
cell holds a clean formula or the initial one (`Sheet.clean_of_run`).
-/

namespace FormulaGrid

namespace Formula

/-- No node of a formula is a comma node, and no operation in it has a blank argument. -/
def Clean : Formula → Prop := Everywhere fun op args => op.name ≠ Symbol.comma.name ∧ blank ∉ args

/-- In the standard catalog the comma is the only operation with its name. -/
theorem eq_comma_of_name_eq {op : Operation} (hop : op ∈ Catalog.standard.ops)
    (h : op.name = Symbol.comma.name) : op = .comma :=
  Catalog.eq_of_name_eq hop (by simp [Catalog.ops_standard]) h

/-- A formula over the standard operations that comes to something is clean. -/
theorem clean_of_gives {b : Bindings} {f r : Formula} (hf : f.Over .standard)
    (h : Gives b f (.ok r)) : f.Clean := by
  induction f using Formula.ind generalizing r with
  | blank => exact .leaf trivial
  | const => exact .leaf trivial
  | ref => exact .leaf trivial
  | app op args ih =>
    obtain ⟨hop, hover⟩ := over_app_iff.mp hf
    have hcomma : op.name ≠ Symbol.comma.name := by
      intro hname
      rw [eq_comma_of_name_eq hop hname] at h
      exact not_gives_comma h
    refine .app ⟨hcomma, h.blank_not_mem⟩ fun a ha => ?_
    obtain ⟨n, hn⟩ := h.exists_args.2 a ha
    exact ih a ha (hover a ha) hn

end Formula

/-- What an edit is about to write is over a catalog; an edit that clears a cell brings no formula. -/
def Edit.Over (c : Catalog) (read : String → Except ParseError Formula) : Edit → Prop
  | update _ f => f.Over c
  | enter _ text => ∀ f, read text = .ok f → f.Over c
  | clear _ => True

namespace Sheet

variable {s : Sheet}

/-- Every cell holds the initial formula or a clean one. -/
def Clean (s : Sheet) : Prop := ∀ a f, s.formulaAt a = .ok f → f = s.initial ∨ f.Clean

theorem Clean.set {i : Fin s.extent.size} {f : Formula} (hs : s.Clean)
    (hf : f = s.initial ∨ f.Clean) : (s.set i f).Clean := by
  intro a g hg
  rw [formulaAt_set] at hg
  split at hg
  next => exact Except.ok.inj hg ▸ hf
  next => exact hs a g hg

theorem Clean.update {t : Sheet} {a : Cell} {f : Formula} (hs : s.Clean) (hf : f.Over .standard)
    (h : s.update a f = .ok t) : t.Clean := by
  obtain ⟨i, v, -, hv, rfl⟩ := update_eq_ok_iff.mp h
  exact hs.set (.inr (Formula.clean_of_gives hf (Formula.gives_of_reduce_eq_ok hv)))

/-- A successful edit keeps a sheet clean. -/
theorem Clean.perform {t : Sheet} {e : Edit} (hs : s.Clean) (he : e.Over .standard s.read)
    (h : s.perform e = some t) : t.Clean := by
  cases e with
  | update a f => exact hs.update he (Except.toOption_eq_some_iff.mp h)
  | enter a text =>
    obtain ⟨f, hf, hu⟩ := enter_eq_ok_iff.mp (Except.toOption_eq_some_iff.mp h)
    exact hs.update (he f hf) hu
  | clear a =>
    obtain ⟨i, -, rfl⟩ := clear_eq_ok_iff.mp (Except.toOption_eq_some_iff.mp h)
    exact hs.set (.inl rfl)

theorem clean_of_create {read : String → Except ParseError Formula} {o : SheetOptions}
    (h : create read o = .ok s) : s.Clean := by
  obtain ⟨-, -, hinitial, -, hcells⟩ := of_create h
  intro a f hf
  obtain ⟨i, -, rfl⟩ := formulaAt_eq_ok_iff.mp hf
  exact .inl ((hcells i).trans hinitial.symm)

/-- Edits over the standard operations keep a sheet clean. -/
theorem Clean.run {edits : List Edit} (hs : s.Clean) (h : ∀ e ∈ edits, e.Over .standard s.read) :
    (s.run edits).Clean := by
  have hrun : (s.run edits).Clean ∧ (s.run edits).read = s.read := by
    refine run_induction (P := fun t => t.Clean ∧ t.read = s.read) ?_ ⟨hs, rfl⟩
    rintro t u e he hp ⟨ht, hread⟩
    obtain ⟨i, f, -, hu⟩ := exists_set_of_perform hp
    exact ⟨ht.perform (hread ▸ h e he) hp, hu ▸ hread⟩
  exact hrun.1

/-- While a sheet that was made from options is edited with formulas over the standard operations, every cell
holds the initial formula or a clean one at every point. -/
theorem clean_of_run {read : String → Except ParseError Formula} {o : SheetOptions}
    (hs : create read o = .ok s) {edits : List Edit} (h : ∀ e ∈ edits, e.Over .standard read) :
    ∀ before, before <+: edits → ∀ a ∈ s.extent,
      ∃ f, (s.run before).formulaAt a = .ok f ∧ (f = o.initial ∨ f.Clean) := by
  intro before hbefore a ha
  have hread : ∀ e ∈ before, e.Over .standard s.read :=
    fun e he => read_of_create hs ▸ h e (hbefore.subset he)
  have hclean := (clean_of_create hs).run hread
  obtain ⟨-, hextent, hinitial, -⟩ := frame_run s before
  rw [← hextent] at ha
  obtain ⟨i, rfl⟩ := Extent.exists_cell_eq ha
  refine ⟨_, formulaAt_cell _ i, ?_⟩
  have hcell := hclean _ _ (formulaAt_cell _ i)
  rwa [hinitial, (of_create hs).2.2.1] at hcell

/-- A row of two cells that hold an operator over a blank. -/
def gapRow : Sheet where
  read := Catalog.standard.parse
  extent := .oneByTwo
  initial := .app .plus [.blank]
  builtins := []
  cells := Vector.replicate _ (.app .plus [.blank])

/-- Edits of which the second has no value. -/
def twoEdits : List Edit := [.enter ⟨0, 0⟩ "2 + 3", .update ⟨0, 1⟩ (.app .comma [.const 1])]

theorem gapRow_clean :
    (gapRow.run twoEdits).formulaAt ⟨0, 0⟩ = .ok (.app .plus [.const 2, .const 3]) ∧
      (gapRow.run twoEdits).formulaAt ⟨0, 1⟩ = .ok (.app .plus [.blank]) ∧
      Formula.Clean (.app .plus [.const 2, .const 3]) ∧ ¬Formula.Clean (.app .plus [.blank]) := by
  have hwritten : Formula.Written (.app .plus [.const 2, .const 3]) :=
    .pair (s := .plus) (by decide) trivial (.const (by decide)) (.const (by decide))
  have hparse : Catalog.standard.parse "2 + 3" = .ok (.app .plus [.const 2, .const 3]) :=
    Formula.parse_render hwritten
  have hover : ∀ e ∈ twoEdits, e.Over .standard Catalog.standard.parse := by
    intro e he
    rcases List.mem_pair.mp he with rfl | rfl
    · intro f hf
      obtain rfl := Except.ok.inj (hparse.symm.trans hf)
      simp [Formula.Over, Catalog.ops_standard]
    · show Formula.Over .standard (.app .comma [.const 1])
      simp [Formula.Over, Catalog.ops_standard]
  have henter : gapRow.perform (.enter ⟨0, 0⟩ "2 + 3") =
      some (gapRow.set ⟨0, by decide⟩ (.app .plus [.const 2, .const 3])) := by
    have hreduce : (Formula.app .plus [.const 2, .const 3]).reduce gapRow.bindings = .ok (.const 5) := by
      simp [Formula.reduce, Formula.reduceOn_app, Formula.demandAll_cons, Formula.reduceOn,
        Formula.demandAll, Formula.demand, Operation.plus, Arithmetic.sum, Except.map]
    exact perform_enter rfl hparse hreduce
  have hupdate : (gapRow.set ⟨0, by decide⟩ (.app .plus [.const 2, .const 3])).perform
      (.update ⟨0, 1⟩ (.app .comma [.const 1])) = none :=
    not_perform_update (fun _ hv => Formula.not_gives_comma (Formula.gives_of_reduce_eq_ok hv)) _
  have hrun : gapRow.run twoEdits =
      gapRow.set ⟨0, by decide⟩ (.app .plus [.const 2, .const 3]) := by
    rw [twoEdits, run_cons, after_of_perform henter, run_cons, after_of_not_perform hupdate]
    rfl
  have hfirst : (gapRow.run twoEdits).formulaAt ⟨0, 0⟩ = .ok (.app .plus [.const 2, .const 3]) := by
    rw [hrun]
    exact (formulaAt_set _ _ _ _).trans (if_pos rfl)
  obtain ⟨f, hf, hclean⟩ := clean_of_run (o := ⟨1, 2, .app .plus [.blank], []⟩) (s := gapRow) rfl
    hover _ (List.prefix_refl _) ⟨0, 0⟩ (by decide)
  obtain rfl := Except.ok.inj (hfirst.symm.trans hf)
  refine ⟨hfirst, ?_, hclean.resolve_left (by simp), ?_⟩
  · rw [hrun]
    exact (formulaAt_set _ _ _ _).trans (if_neg (by decide))
  · intro hblank
    cases hblank with
    | leaf h => exact h
    | app h => exact h.2 (by simp)

end Sheet

end FormulaGrid
