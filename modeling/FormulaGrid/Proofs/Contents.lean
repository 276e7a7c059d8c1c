import FormulaGrid.Proofs.Edits

/-!
# Proofs.Contents — a sheet holds what was written last

Through every run of edits a sheet is a map from the cells of its extent to formulas.  A cell has the
formula of the last successful edit that was aimed at it (`formulaAt_of_lastEdit`), the list of all cells
shows this map in order (`mem_toList_iff`, `pairwise_toList`), and nothing but formulas ever changes
(`contents_of_run`).
-/

namespace FormulaGrid

theorem Extent.of_check {rows : UInt32} {columns : UInt16} {e : Extent}
    (h : check rows columns = .ok e) : e.rows = rows ∧ e.columns = columns := by
  unfold check at h
  split at h
  next => cases h
  next =>
    split at h
    next => cases h
    next => cases h; exact ⟨rfl, rfl⟩

theorem Extent.cell_lt_cell {e : Extent} {i j : Fin e.size} : e.cell i < e.cell j ↔ i < j := by
  rw [← number_lt_number (cell_mem i) (cell_mem j), number_cell, number_cell, Fin.lt_def]

namespace Sheet

variable {s : Sheet}

/-! ### The list of all cells -/

theorem formulaAt_eq_ok_iff {a : Cell} {f : Formula} :
    s.formulaAt a = .ok f ↔ ∃ i, s.extent.cell i = a ∧ s.formula i = f := by
  simp only [formulaAt, Except.map_eq_ok_iff, Extent.index_eq_ok_iff]

theorem length_toList (s : Sheet) : s.toList.length = s.extent.size := by simp [toList]

/-- The list of all cells shows what each cell holds. -/
theorem mem_toList_iff {a : Cell} {f : Formula} : (a, f) ∈ s.toList ↔ s.formulaAt a = .ok f := by
  simp [toList, formulaAt_eq_ok_iff]

/-- The list of all cells is in their order. -/
theorem pairwise_toList (s : Sheet) : s.toList.Pairwise fun p q => p.1 < q.1 := by
  rw [toList, List.pairwise_map]
  exact (List.pairwise_lt_finRange _).imp Extent.cell_lt_cell.mpr

theorem mem_extent_of_formulaAt {a : Cell} {f : Formula} (h : s.formulaAt a = .ok f) :
    a ∈ s.extent := by
  obtain ⟨i, rfl, -⟩ := formulaAt_eq_ok_iff.mp h
  exact Extent.cell_mem i

/-! ### New sheets -/

theorem of_create {read : String → Except ParseError Formula} {o : SheetOptions}
    (h : create read o = .ok s) :
    s.extent.rows = o.rows ∧ s.extent.columns = o.columns ∧ s.initial = o.initial ∧
      s.builtins = Bindings.latest o.builtins ∧ ∀ i, s.formula i = o.initial := by
  obtain ⟨e, he, h⟩ := Except.bind_eq_ok_iff.mp h
  obtain ⟨hrows, hcolumns⟩ := Extent.of_check he
  cases h
  exact ⟨hrows, hcolumns, rfl, rfl, fun i => Vector.getElem_replicate i.isLt⟩

/-! ### What was written last -/

/-- A cell holds the formula of the last successful edit that was aimed at it. -/
theorem formulaAt_of_lastEdit {edits : List Edit} {a : Cell} {e : Edit}
    (h : s.lastEdit edits a = some e) :
    ∃ f, e.formula s.read s.initial = .ok f ∧ (s.run edits).formulaAt a = .ok f := by
  obtain ⟨before, t, ht, rfl, hlast⟩ := exists_of_lastEdit h
  obtain ⟨i, f, hi, hf, rfl⟩ := set_of_perform ht
  obtain ⟨hread, -, hinitial, -⟩ := frame_run s before
  rw [hread, hinitial] at hf
  refine ⟨f, hf, ?_⟩
  rw [hlast, formulaAt_set, if_pos hi]

/-- A sheet that was made from options is a map from cells to formulas, whatever edits follow.  A cell of
the extent holds the formula of the last successful edit that was aimed at it, and the initial formula if
there was none; the program of an edit ends in the next sheet of the run, and if it fails no formula is
changed; the size, the initial formula and the builtins
stay; and the list of all cells shows each cell once, in order, with the formula it holds. -/
theorem contents_of_run {read : String → Except ParseError Formula} {o : SheetOptions}
    (hs : create read o = .ok s) (edits : List Edit) :
    (∀ a ∈ s.extent,
      (s.lastEdit edits a = none → (s.run edits).formulaAt a = .ok o.initial) ∧
      ∀ e, s.lastEdit edits a = some e →
        ∃ f, e.formula read o.initial = .ok f ∧ (s.run edits).formulaAt a = .ok f) ∧
    (∀ e, (∀ t, (s.run edits).perform e = some t →
        e.inPlace.run (s.run edits) = .ok () t ∧ t = s.run (edits ++ [e])) ∧
      ((s.run edits).perform e = none → ∃ err t,
        e.inPlace.run (s.run edits) = .error err t ∧ t = s.run (edits ++ [e]) ∧
          ∀ a, t.formulaAt a = (s.run edits).formulaAt a)) ∧
    ((s.run edits).extent = s.extent ∧ s.extent.rows = o.rows ∧ s.extent.columns = o.columns ∧
      (s.run edits).initial = o.initial ∧
      ∀ name, (s.run edits).builtin? name = o.builtins.reverse.lookup name) ∧
    (s.run edits).toList.length = o.rows.toNat * o.columns.toNat ∧
    (s.run edits).toList.Pairwise (fun p q => p.1 < q.1) ∧
    ∀ a f, (a, f) ∈ (s.run edits).toList ↔ a ∈ s.extent ∧ (s.run edits).formulaAt a = .ok f := by
  obtain ⟨hrows, hcolumns, hinitial, hbuiltins, hcells⟩ := of_create hs
  obtain ⟨-, hextent, hinitial', hbuiltins'⟩ := frame_run s edits
  refine ⟨fun a ha => ⟨fun hnone => ?_, fun e he => ?_⟩,
    fun e => ⟨fun t ht => ⟨inPlace_of_perform ht, ?_⟩, fun he => ?_⟩,
    ⟨hextent, hrows, hcolumns, hinitial'.trans hinitial, fun name => ?_⟩, ?_, pairwise_toList _,
    fun a f => ?_⟩
  · obtain ⟨i, rfl⟩ := Extent.exists_cell_eq ha
    rw [formulaAt_run_of_untouched (forall_accepted_of_lastEdit hnone), formulaAt_cell, hcells]
  · rw [← read_of_create hs, ← hinitial]
    exact formulaAt_of_lastEdit he
  · rw [run_append]
    exact (after_of_perform ht).symm
  · obtain ⟨err, herr⟩ := inPlace_of_not_perform he
    refine ⟨err, _, herr, ?_, fun a => rfl⟩
    rw [run_append]
    exact (after_of_not_perform he).symm
  · rw [builtin?, hbuiltins', hbuiltins, Bindings.lookup_latest]
  · rw [length_toList, hextent, Extent.size, hrows, hcolumns]
  · rw [mem_toList_iff, iff_and_self]
    intro h
    exact hextent ▸ mem_extent_of_formulaAt h

/-- A row of two cells that hold 7. -/
def sevens : Sheet where
  read _ := .ok .blank
  extent := .oneByTwo
  initial := .const 7
  builtins := []
  cells := Vector.replicate _ (.const 7)

/-- Edits of which the second is aimed beside the row, and the third has no value. -/
def fourEdits : List Edit :=
  [.update ⟨0, 0⟩ (.const 1), .update ⟨0, 5⟩ (.const 2),
    .update ⟨0, 0⟩ (.app .plus [.blank]), .clear ⟨0, 1⟩]

theorem sevens_keeps_first :
    (sevens.run fourEdits).formulaAt ⟨0, 0⟩ = .ok (.const 1) ∧
      (sevens.run fourEdits).toList.length = 2 ∧
      ∃ err t, (Edit.update ⟨0, 0⟩ (.app .plus [.blank])).inPlace.run (sevens.run fourEdits) =
          .error err t ∧
        t.formulaAt ⟨0, 0⟩ = .ok (.const 1) := by
  have hfirst : sevens.perform (.update ⟨0, 0⟩ (.const 1)) =
      some (sevens.set ⟨0, by decide⟩ (.const 1)) := by
    have hreduce : (Formula.const 1).reduce sevens.bindings = .ok (.const 1) := by
      simp [Formula.reduce, Formula.reduceOn]
    exact perform_update rfl hreduce
  have hbeside : (sevens.set ⟨0, by decide⟩ (.const 1)).perform (.update ⟨0, 5⟩ (.const 2)) =
      none := rfl
  have hblank : ∀ s : Sheet, s.perform (.update ⟨0, 0⟩ (.app .plus [.blank])) = none := by
    intro s
    refine not_perform_update (fun v hv => ?_) _
    simp [Formula.reduce, Formula.reduceOn, Formula.demandAll, Formula.demand, bind,
      Except.bind] at hv
  have hclear : (sevens.set ⟨0, by decide⟩ (.const 1)).perform (.clear ⟨0, 1⟩) =
      some ((sevens.set ⟨0, by decide⟩ (.const 1)).set ⟨1, by decide⟩ (.const 7)) := rfl
  have hlast : sevens.lastEdit fourEdits ⟨0, 0⟩ = some (.update ⟨0, 0⟩ (.const 1)) := by
    rw [fourEdits, lastEdit_cons_of_some hfirst, lastEdit, accepted_cons_of_none hbeside,
      accepted_cons_of_none (hblank _), accepted_cons_of_some hclear]
    rfl
  obtain ⟨hcells, hedits, -, hlength, -⟩ :=
    contents_of_run (o := ⟨1, 2, .const 7, []⟩) (s := sevens) rfl fourEdits
  obtain ⟨f, hf, hformula⟩ := (hcells ⟨0, 0⟩ (by decide)).2 _ hlast
  cases hf
  obtain ⟨err, t, hrun, -, hsame⟩ := (hedits _).2 (hblank _)
  exact ⟨hformula, hlength, err, t, hrun, (hsame _).trans hformula⟩

end Sheet

end FormulaGrid
