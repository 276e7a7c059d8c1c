import FormulaGrid.Proofs.Success
import FormulaGrid.Sheet.Edit

/-!
# Proofs.Edits — runs of edits

An edit is a call that writes to a cell.  A run performs edits in order, where a failing edit leaves
the sheet as it is.  `Sheet.lastEdit` is the last successful edit of a run that was aimed at a cell.
Each successful edit sets one cell to one formula (`exists_set_of_perform`), and a cell keeps its
formula through edits that are aimed elsewhere (`formulaAt_run_of_untouched`).  As a program over a stored
sheet an edit writes nothing before it fails (`run_inPlace`).
-/

namespace FormulaGrid

/-- A call that writes to a cell. -/
inductive Edit where
  | update (a : Cell) (f : Formula)
  | enter (a : Cell) (text : String)
  | clear (a : Cell)

/-- The cell that an edit is aimed at. -/
def Edit.cell : Edit → Cell
  | update a _ => a
  | enter a _ => a
  | clear a => a

/-- The formula that an edit is about to write: the given one, that of the given text, or the initial one
of the sheet. -/
def Edit.formula (read : String → Except ParseError Formula) (initial : Formula) :
    Edit → Except ParseError Formula
  | update _ f => .ok f
  | enter _ text => read text
  | clear _ => .ok initial

/-- The program of an edit, with the errors of all three kinds as entry errors. -/
def Edit.inPlace : Edit → EStateM EntryError Sheet Unit
  | update a f => (Sheet.updateInPlace a f).adaptExcept .refused
  | enter a text => Sheet.enterInPlace a text
  | clear a => (Sheet.clearInPlace a).adaptExcept fun e => .refused (.address e)

namespace Sheet

variable (s : Sheet)

/-- The sheet after an edit that succeeds. -/
def perform : Edit → Option Sheet
  | .update a f => (s.update a f).toOption
  | .enter a text => (s.enter a text).toOption
  | .clear a => (s.clear a).toOption

/-- The sheet after an edit that may fail. -/
def after (e : Edit) : Sheet := (s.perform e).getD s

/-- The sheet after a list of edits. -/
def run (edits : List Edit) : Sheet := edits.foldl after s

/-- The edits of a list that succeed when all are performed in order. -/
def accepted : Sheet → List Edit → List Edit
  | _, [] => []
  | s, e :: es =>
    if (s.perform e).isSome then e :: accepted (s.after e) es else accepted (s.after e) es

/-- The last edit of a list that succeeds and is aimed at the cell `a`. -/
def lastEdit (edits : List Edit) (a : Cell) : Option Edit :=
  (s.accepted edits).reverse.find? fun e => e.cell = a

/-! ### What the three kinds of edit do -/

variable {s}

theorem update_eq_ok_iff {t : Sheet} {a : Cell} {f : Formula} :
    s.update a f = .ok t ↔
      ∃ i v, s.extent.cell i = a ∧ f.reduce s.bindings = .ok v ∧ t = s.set i f := by
  unfold update
  constructor
  · intro h
    obtain ⟨i, hi, h⟩ := Except.bind_eq_ok_iff.mp h
    obtain ⟨v, hv, h⟩ := Except.bind_eq_ok_iff.mp h
    have ha := Extent.index_eq_ok_iff.mp (Except.mapError_eq_ok_iff.mp hi)
    exact ⟨i, v, ha, Except.mapError_eq_ok_iff.mp hv, (Except.ok.inj h).symm⟩
  · rintro ⟨i, v, rfl, hv, rfl⟩
    refine Except.bind_eq_ok_iff.mpr ⟨i, Except.mapError_eq_ok_iff.mpr (Extent.index_cell i), ?_⟩
    exact Except.bind_eq_ok_iff.mpr ⟨v, Except.mapError_eq_ok_iff.mpr hv, rfl⟩

theorem enter_eq_ok_iff {t : Sheet} {a : Cell} {text : String} :
    s.enter a text = .ok t ↔ ∃ f, s.read text = .ok f ∧ s.update a f = .ok t := by
  simp only [enter, Except.bind_eq_ok_iff, Except.mapError_eq_ok_iff]

theorem clear_eq_ok_iff {t : Sheet} {a : Cell} :
    s.clear a = .ok t ↔ ∃ i, s.extent.cell i = a ∧ t = s.set i s.initial := by
  simp only [clear, Except.map_eq_ok_iff, Extent.index_eq_ok_iff]
  exact exists_congr fun i => and_congr_right fun _ => eq_comm

theorem perform_update {i : Fin s.extent.size} {a : Cell} {f v : Formula} (hi : s.extent.cell i = a)
    (hv : f.reduce s.bindings = .ok v) : s.perform (.update a f) = some (s.set i f) :=
  Except.toOption_eq_some_iff.mpr (update_eq_ok_iff.mpr ⟨i, v, hi, hv, rfl⟩)

theorem perform_enter {i : Fin s.extent.size} {a : Cell} {text : String} {f v : Formula}
    (hi : s.extent.cell i = a) (hf : s.read text = .ok f) (hv : f.reduce s.bindings = .ok v) :
    s.perform (.enter a text) = some (s.set i f) :=
  Except.toOption_eq_some_iff.mpr
    (enter_eq_ok_iff.mpr ⟨f, hf, update_eq_ok_iff.mpr ⟨i, v, hi, hv, rfl⟩⟩)

/-- A formula that comes to nothing is not let into a cell. -/
theorem not_perform_update {f : Formula} (hv : ∀ v, f.reduce s.bindings ≠ .ok v) (a : Cell) :
    s.perform (.update a f) = none := by
  refine Option.eq_none_iff_forall_ne_some.mpr fun t ht => ?_
  obtain ⟨_, v, -, hv', -⟩ := update_eq_ok_iff.mp (Except.toOption_eq_some_iff.mp ht)
  exact hv v hv'

/-- A successful edit sets the cell it is aimed at to its formula. -/
theorem set_of_perform {t : Sheet} {e : Edit} (h : s.perform e = some t) :
    ∃ i f, s.extent.cell i = e.cell ∧ e.formula s.read s.initial = .ok f ∧ t = s.set i f := by
  cases e with
  | update a f =>
    obtain ⟨i, _, hi, -, ht⟩ := update_eq_ok_iff.mp (Except.toOption_eq_some_iff.mp h)
    exact ⟨i, f, hi, rfl, ht⟩
  | enter a text =>
    obtain ⟨f, hf, hu⟩ := enter_eq_ok_iff.mp (Except.toOption_eq_some_iff.mp h)
    obtain ⟨i, _, hi, -, ht⟩ := update_eq_ok_iff.mp hu
    exact ⟨i, f, hi, hf, ht⟩
  | clear a =>
    obtain ⟨i, hi, ht⟩ := clear_eq_ok_iff.mp (Except.toOption_eq_some_iff.mp h)
    exact ⟨i, _, hi, rfl, ht⟩

/-- A successful edit sets the cell it is aimed at and nothing else. -/
theorem exists_set_of_perform {t : Sheet} {e : Edit} (h : s.perform e = some t) :
    ∃ i f, s.extent.cell i = e.cell ∧ t = s.set i f := by
  obtain ⟨i, f, hi, -, ht⟩ := set_of_perform h
  exact ⟨i, f, hi, ht⟩

theorem formulaAt_of_perform {t : Sheet} {e : Edit} {a : Cell} (h : s.perform e = some t)
    (ha : e.cell ≠ a) : t.formulaAt a = s.formulaAt a := by
  obtain ⟨i, f, hi, rfl⟩ := exists_set_of_perform h
  rw [formulaAt_set, if_neg (hi ▸ ha)]

/-! ### Edits in place -/

/-- The end of a program that leaves the new sheet behind, or an error and the sheet as it was. -/
def settle {ε : Type} (s : Sheet) : Except ε Sheet → EStateM.Result ε Sheet Unit
  | .ok t => .ok () t
  | .error e => .error e s

theorem run_adaptExcept {ε ε' : Type} {p : EStateM ε Sheet Unit} {x : Except ε Sheet}
    (h : p.run s = s.settle x) (f : ε → ε') :
    (p.adaptExcept f).run s = s.settle (x.mapError f) := by
  have hp : p s = s.settle x := h
  unfold EStateM.run EStateM.adaptExcept
  rw [hp]
  cases x <;> rfl

theorem run_updateInPlace (s : Sheet) (a : Cell) (f : Formula) :
    (updateInPlace a f).run s = s.settle (s.update a f) := by
  rw [updateInPlace, update, EStateM.run_get_bind, EStateM.run_ofExcept_bind]
  cases s.extent.index a with
  | error e => rfl
  | ok i =>
    show EStateM.run (_ >>= _) s = _
    rw [EStateM.run_ofExcept_bind]
    cases f.reduce s.bindings <;> rfl

theorem run_enterInPlace (s : Sheet) (a : Cell) (text : String) :
    (enterInPlace a text).run s = s.settle (s.enter a text) := by
  rw [enterInPlace, enter, EStateM.run_get_bind, EStateM.run_ofExcept_bind]
  cases s.read text with
  | error e => rfl
  | ok f => exact run_adaptExcept (run_updateInPlace s a f) _

theorem run_clearInPlace (s : Sheet) (a : Cell) :
    (clearInPlace a).run s = s.settle (s.clear a) := by
  rw [clearInPlace, clear, EStateM.run_get_bind, EStateM.run_ofExcept_bind]
  cases s.extent.index a <;> rfl

/-- The program of an edit leaves the sheet after the edit behind, or else the sheet as it was. -/
theorem run_inPlace (s : Sheet) (e : Edit) :
    ∃ x : Except EntryError Sheet, e.inPlace.run s = s.settle x ∧ s.perform e = x.toOption := by
  cases e with
  | update a f =>
    exact ⟨_, run_adaptExcept (run_updateInPlace s a f) _, (Except.toOption_mapError _ _).symm⟩
  | enter a text => exact ⟨_, run_enterInPlace s a text, rfl⟩
  | clear a => exact ⟨_, run_adaptExcept (run_clearInPlace s a) _, (Except.toOption_mapError _ _).symm⟩

theorem inPlace_of_perform {t : Sheet} {e : Edit} (h : s.perform e = some t) :
    e.inPlace.run s = .ok () t := by
  obtain ⟨x, hrun, hx⟩ := run_inPlace s e
  rw [hrun, Except.toOption_eq_some_iff.mp (hx.symm.trans h)]
  rfl

theorem inPlace_of_not_perform {e : Edit} (h : s.perform e = none) :
    ∃ err, e.inPlace.run s = .error err s := by
  obtain ⟨x, hrun, hx⟩ := run_inPlace s e
  cases x with
  | ok t => cases h.symm.trans hx
  | error err => exact ⟨err, hrun⟩

/-! ### New sheets -/

/-- The reader of a sheet is the one it was made with. -/
theorem read_of_create {read : String → Except ParseError Formula} {o : SheetOptions}
    (h : create read o = .ok s) : s.read = read := by
  obtain ⟨extent, -, h⟩ := Except.bind_eq_ok_iff.mp h
  rw [← Except.ok.inj h]

/-! ### Runs -/

@[simp] theorem run_cons (s : Sheet) (e : Edit) (es : List Edit) :
    s.run (e :: es) = (s.after e).run es := rfl

theorem run_append (s : Sheet) (edits more : List Edit) :
    s.run (edits ++ more) = (s.run edits).run more := List.foldl_append

theorem after_of_perform {t : Sheet} {e : Edit} (h : s.perform e = some t) : s.after e = t := by
  simp [after, h]

theorem after_of_not_perform {e : Edit} (h : s.perform e = none) : s.after e = s := by
  simp [after, h]

/-- What holds of a sheet and is kept by every successful edit of a list holds after the run. -/
theorem run_induction {P : Sheet → Prop} {edits : List Edit}
    (step : ∀ s t, ∀ e ∈ edits, s.perform e = some t → P s → P t) (hs : P s) :
    P (s.run edits) := by
  induction edits generalizing s with
  | nil => exact hs
  | cons e es ih =>
    refine ih (fun s t e he => step s t e (List.mem_cons_of_mem _ he)) ?_
    cases h : s.perform e with
    | none => rwa [after_of_not_perform h]
    | some t =>
      rw [after_of_perform h]
      exact step s t e (by simp) h hs

/-- A run changes formulas of cells and nothing else. -/
theorem frame_run (s : Sheet) (edits : List Edit) :
    (s.run edits).read = s.read ∧ (s.run edits).extent = s.extent ∧
      (s.run edits).initial = s.initial ∧ (s.run edits).builtins = s.builtins := by
  refine run_induction (P := fun t => t.read = s.read ∧ t.extent = s.extent ∧
    t.initial = s.initial ∧ t.builtins = s.builtins) ?_ ⟨rfl, rfl, rfl, rfl⟩
  intro t u e _ h ht
  obtain ⟨i, f, -, rfl⟩ := exists_set_of_perform h
  exact ht

/-- The reader of a sheet does not change. -/
theorem read_run (s : Sheet) (edits : List Edit) : (s.run edits).read = s.read :=
  (frame_run s edits).1

theorem accepted_cons_of_none {e : Edit} (h : s.perform e = none) (es : List Edit) :
    s.accepted (e :: es) = s.accepted es := by
  simp [accepted, h, after_of_not_perform h]

theorem accepted_cons_of_some {t : Sheet} {e : Edit} (h : s.perform e = some t) (es : List Edit) :
    s.accepted (e :: es) = e :: t.accepted es := by
  simp [accepted, h, after_of_perform h]

theorem lastEdit_cons_of_some {t : Sheet} {e : Edit} (h : s.perform e = some t) (es : List Edit)
    (a : Cell) :
    s.lastEdit (e :: es) a = (t.lastEdit es a).or (if e.cell = a then some e else none) := by
  rw [lastEdit, accepted_cons_of_some h, List.reverse_cons, List.find?_append, lastEdit]
  by_cases ha : e.cell = a <;> simp [ha]

theorem forall_accepted_of_lastEdit {edits : List Edit} {a : Cell}
    (h : s.lastEdit edits a = none) : ∀ e ∈ s.accepted edits, e.cell ≠ a := by
  intro e he
  have hnone := List.find?_eq_none.mp h e (List.mem_reverse.mpr he)
  simpa using hnone

/-- A cell keeps its formula through a run without a successful edit that is aimed at it. -/
theorem formulaAt_run_of_untouched {edits : List Edit} {a : Cell}
    (h : ∀ e ∈ s.accepted edits, e.cell ≠ a) : (s.run edits).formulaAt a = s.formulaAt a := by
  induction edits generalizing s with
  | nil => rfl
  | cons e es ih =>
    rw [run_cons]
    cases hp : s.perform e with
    | none =>
      rw [accepted_cons_of_none hp] at h
      rw [after_of_not_perform hp, ih h]
    | some t =>
      rw [accepted_cons_of_some hp, List.forall_mem_cons] at h
      rw [after_of_perform hp, ih h.2, formulaAt_of_perform hp h.1]

/-- The last edit at a cell succeeds on the sheet that some part of the run leads to, and the cell
ends up with what it has after that edit. -/
theorem exists_of_lastEdit {edits : List Edit} {a : Cell} {e : Edit}
    (h : s.lastEdit edits a = some e) :
    ∃ before t, (s.run before).perform e = some t ∧ e.cell = a ∧
      (s.run edits).formulaAt a = t.formulaAt a := by
  induction edits generalizing s with
  | nil => simp [lastEdit, accepted] at h
  | cons c cs ih =>
    rw [run_cons]
    cases hp : s.perform c with
    | none =>
      rw [lastEdit, accepted_cons_of_none hp] at h
      rw [after_of_not_perform hp]
      exact ih h
    | some u =>
      -- either the last edit is further on, or it is this one and the rest leaves the cell alone
      rw [lastEdit_cons_of_some hp, Option.or_eq_some_iff] at h
      rw [after_of_perform hp]
      rcases h with hl | ⟨hl, h⟩
      · obtain ⟨before, t, ht, ha, hf⟩ := ih hl
        exact ⟨c :: before, t, by rwa [run_cons, after_of_perform hp], ha, hf⟩
      · obtain ⟨ha, rfl⟩ : c.cell = a ∧ c = e := by simpa using h
        have huntouched := forall_accepted_of_lastEdit hl
        exact ⟨[], u, hp, ha, formulaAt_run_of_untouched huntouched⟩

end Sheet

/-- A row of two cells. -/
def Extent.oneByTwo : Extent := ⟨1, 2, by decide, by decide, by decide⟩

/-- A row of three cells. -/
def Extent.oneByThree : Extent := ⟨1, 3, by decide, by decide, by decide⟩

end FormulaGrid
