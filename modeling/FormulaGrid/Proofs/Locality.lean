import FormulaGrid.Proofs.Dependents
import FormulaGrid.Proofs.Edits
import FormulaGrid.Proofs.Reach
import FormulaGrid.Sheet.Usage

/-!
# Proofs.Locality — which values an edit changes

The bindings of a sheet change in one name when one cell is set (`resolve_set`).  So a cell keeps its
value unless its formula reaches that name, and then it is among the cells that use the edited one
(`mem_usedBy_of_reaches`).
-/

namespace FormulaGrid.Sheet

open Formula

variable {s : Sheet}

/-! ### The bindings of a sheet -/

theorem indexOf_label (i : Fin s.extent.size) : s.indexOf (s.extent.cell i).label = .ok i := by
  rw [indexOf, Cell.parse_label (Extent.column_lt_letters (Extent.cell_mem i))]
  exact Extent.index_cell i

theorem label_injective {i j : Fin s.extent.size}
    (h : (s.extent.cell i).label = (s.extent.cell j).label) : i = j := by
  have hi := indexOf_label (s := s) i
  rw [h, indexOf_label j] at hi
  exact (Except.ok.inj hi).symm

theorem find?_bindings (s : Sheet) (name : String) : s.bindings.find? name = s.resolve name := rfl

@[simp] theorem resolve_label (i : Fin s.extent.size) :
    s.resolve (s.extent.cell i).label = some (s.formula i) := by
  rw [resolve, indexOf_label]

theorem formula_set (i j : Fin s.extent.size) (f : Formula) :
    (s.set i f).formula j = if i = j then f else s.formula j := by
  have hset : (s.set i f).formulaAt (s.extent.cell j) = .ok ((s.set i f).formula j) :=
    (s.set i f).formulaAt_cell j
  have h := formulaAt_set s i f (s.extent.cell j)
  rw [hset, s.formulaAt_cell j] at h
  by_cases hij : i = j
  · simpa [hij] using h
  · have hne : s.extent.cell i ≠ s.extent.cell j := fun e => hij (label_injective (e ▸ rfl))
    simpa [hij, hne] using h

/-- To set a cell is to bind its name anew, and no other name. -/
theorem resolve_set (i : Fin s.extent.size) (f : Formula) (name : String) :
    (s.set i f).resolve name =
      if name = (s.extent.cell i).label then some f else s.resolve name := by
  by_cases hn : name = (s.extent.cell i).label
  · have h := resolve_label (s := s.set i f) i
    rw [formula_set, if_pos rfl] at h
    rw [if_pos hn, hn]
    exact h
  · rw [if_neg hn]
    cases hj : s.indexOf name with
    | error e =>
      have hj' : (s.set i f).indexOf name = .error e := hj
      rw [resolve, resolve, hj, hj']
      rfl
    | ok j =>
      have hj' : (s.set i f).indexOf name = .ok j := hj
      have hij : i ≠ j := fun e => hn (e ▸ s.eq_label_of_indexOf hj)
      rw [resolve, resolve, hj, hj']
      exact congrArg some ((formula_set i j f).trans (if_neg hij))

theorem find?_set_of_ne (i : Fin s.extent.size) (f : Formula) {name : String}
    (h : name ≠ (s.extent.cell i).label) :
    (s.set i f).bindings.find? name = s.bindings.find? name := by
  rw [find?_bindings, find?_bindings, resolve_set, if_neg h]

theorem find?_set_self (i : Fin s.extent.size) (f : Formula) :
    (s.set i f).bindings.find? (s.extent.cell i).label = some f := by
  rw [find?_bindings, resolve_set, if_pos rfl]

/-- A bound name is that of a cell, or it names no cell of the grid and is that of a builtin. -/
theorem resolve_cases {name : String} {f : Formula} (h : s.resolve name = some f) :
    (∃ i, name = (s.extent.cell i).label ∧ f = s.formula i) ∨
      s.builtin? name = some f ∧ ∀ i, name ≠ (s.extent.cell i).label := by
  unfold resolve at h
  cases hi : s.indexOf name with
  | ok i =>
    rw [hi] at h
    exact .inl ⟨i, s.eq_label_of_indexOf hi, (Option.some.inj h).symm⟩
  | error e =>
    rw [hi] at h
    refine .inr ⟨h, fun i hn => ?_⟩
    rw [hn, indexOf_label] at hi
    cases hi

/-! ### Cells that use a cell -/

/-- The cell with a number, as a named formula. -/
def node (s : Sheet) (i : Fin s.extent.size) : Node Cell :=
  ⟨s.extent.cell i, (s.extent.cell i).label, s.formula i⟩

theorem mem_nodes_iff {n : Node Cell} : n ∈ s.nodes ↔ ∃ i, n = s.node i := by
  simp [nodes, toList, node, eq_comm]

theorem exists_cell_of_mem_usedBy {a c : Cell} (h : c ∈ s.usedBy a) :
    ∃ j, s.extent.cell j = c := by
  unfold usedBy at h
  split at h
  next =>
    obtain ⟨n, hn, rfl⟩ := Node.mem_dependents_iff.mp h
    obtain ⟨j, rfl⟩ := mem_nodes_iff.mp hn.mem
    exact ⟨j, rfl⟩
  next => cases h

theorem mem_usedBy_cell_iff {i j : Fin s.extent.size} :
    s.extent.cell j ∈ s.usedBy (s.extent.cell i) ↔
      Node.Linked s.nodes (s.extent.cell i).label (s.node j) := by
  have hname : (s.extent.cell i).name = .ok (s.extent.cell i).label :=
    if_pos (Extent.column_lt_letters (Extent.cell_mem i))
  simp only [usedBy, hname, Node.mem_dependents_iff]
  constructor
  · rintro ⟨n, hn, hk⟩
    have hm : n ∈ s.nodes := by
      cases hn with
      | direct hn => exact hn
      | through hn => exact hn
    obtain ⟨k, rfl⟩ := mem_nodes_iff.mp hm
    have hk' : s.extent.cell k = s.extent.cell j := hk
    obtain rfl : k = j := label_injective (congrArg Cell.label hk')
    exact hn
  · exact fun h => ⟨_, h, rfl⟩

/-- A formula none of whose names is that of a cell reaches no cell, if this holds of builtins. -/
theorem not_reaches_label_of_refs
    (hb : ∀ name f, s.builtin? name = some f → ∀ next ∈ f.refs, ∀ i,
      next ≠ (s.extent.cell i).label) {f : Formula} {target : String}
    (h : Reaches s.bindings f target)
    (hf : ∀ next ∈ f.refs, ∀ i, next ≠ (s.extent.cell i).label) (i : Fin s.extent.size) :
    target ≠ (s.extent.cell i).label := by
  induction h with
  | here h => exact hf _ h i
  | step h hg _ ih =>
    refine ih ?_
    rcases resolve_cases hg with ⟨k, hk, -⟩ | ⟨hg, -⟩
    · exact absurd hk (hf _ h k)
    · exact hb _ _ hg

/-- A cell whose formula reaches the name of another cell uses that cell. -/
theorem linked_of_reaches
    (hb : ∀ name f, s.builtin? name = some f → ∀ next ∈ f.refs, ∀ i,
      next ≠ (s.extent.cell i).label) {i : Fin s.extent.size} {f : Formula}
    (h : Reaches s.bindings f (s.extent.cell i).label) (j : Fin s.extent.size)
    (hj : s.formula j = f) : Node.Linked s.nodes (s.extent.cell i).label (s.node j) := by
  generalize ht : (s.extent.cell i).label = target at h ⊢
  induction h generalizing j with
  | here h =>
    subst hj
    exact .direct (mem_nodes_iff.mpr ⟨j, rfl⟩) h
  | step h hg hr ih =>
    subst hj
    rcases resolve_cases hg with ⟨k, rfl, rfl⟩ | ⟨hg, -⟩
    · exact .through (m := s.node k) (mem_nodes_iff.mpr ⟨j, rfl⟩) h (ih k rfl ht)
    · exact absurd ht.symm (not_reaches_label_of_refs hb hr (hb _ _ hg) i)

/-! ### Edits and values -/

theorem valueAt_of_formulaAt {a : Cell} {f : Formula} (h : s.formulaAt a = .ok f) :
    s.valueAt a = (f.reduce s.bindings).mapError .eval := by
  simp [valueAt, h, bind, Except.bind]

/-- The value of a cell after another one was set, unless its formula reaches that one. -/
theorem valueAt_set_of_not_reaches {i j : Fin s.extent.size} (f : Formula) (hij : i ≠ j)
    (h : ¬Reaches s.bindings (s.formula j) (s.extent.cell i).label) :
    (s.set i f).valueAt (s.extent.cell j) = s.valueAt (s.extent.cell j) := by
  have hagree := agree_of_not_reaches (fun _ => find?_set_of_ne i f) h
  have hf : (s.set i f).formulaAt (s.extent.cell j) = .ok (s.formula j) := by
    have h := (s.set i f).formulaAt_cell j
    rwa [formula_set, if_neg hij] at h
  rw [valueAt_of_formulaAt hf, valueAt_of_formulaAt (s.formulaAt_cell j),
    reduce_congr hagree]

theorem ne_label_of_parse {name : String}
    (h : ∀ c, Cell.parse name = .ok c → c ∉ s.extent) (i : Fin s.extent.size) :
    name ≠ (s.extent.cell i).label := by
  rintro rfl
  have hi := Extent.cell_mem i
  exact h _ (Cell.parse_label (Extent.column_lt_letters hi)) hi

/-- An edit changes no value but those of the edited cell and of the cells that use it, provided no
builtin refers to a cell of the grid. -/
theorem valueAt_of_not_mem_usedBy {t : Sheet} {e : Edit} {a : Cell}
    (hb : ∀ name f, s.builtin? name = some f → ∀ next ∈ f.refs, ∀ c,
      Cell.parse next = .ok c → c ∉ s.extent)
    (h : s.perform e = some t) (hne : a ≠ e.cell) (hu : a ∉ s.usedBy e.cell) :
    t.valueAt a = s.valueAt a := by
  obtain ⟨i, f, hi, rfl⟩ := exists_set_of_perform h
  rw [← hi] at hne hu
  by_cases ha : a ∈ s.extent
  · obtain ⟨j, rfl⟩ := Extent.exists_cell_eq ha
    refine valueAt_set_of_not_reaches f (fun hij => hne (hij ▸ rfl)) fun hr => hu ?_
    have hb' : ∀ name f, s.builtin? name = some f → ∀ next ∈ f.refs, ∀ i,
        next ≠ (s.extent.cell i).label :=
      fun name f hf next hnext => ne_label_of_parse (hb name f hf next hnext)
    exact mem_usedBy_cell_iff.mpr (linked_of_reaches hb' hr j rfl)
  · have hs : s.formulaAt a = .error (.outOfBounds a s.extent.rows s.extent.columns) := by
      rw [formulaAt, Extent.index_of_not_mem ha]
      rfl
    have ht : (s.set i f).formulaAt a = s.formulaAt a := by
      rw [formulaAt_set, if_neg (Ne.symm hne)]
    simp [valueAt, ht, hs, bind, Except.bind]

/-- A row of three cells, of which the first two stand for each other. -/
def loopRow : Sheet where
  read _ := .ok .blank
  extent := .oneByThree
  initial := .const 1
  builtins := [("k", .ref "k")]
  cells := #v[.ref "B0", .ref "A0", .const 1]

theorem loopRow_value_kept :
    ∃ t, loopRow.perform (.update ⟨0, 2⟩ (.const 7)) = some t ∧
      t.valueAt ⟨0, 0⟩ = loopRow.valueAt ⟨0, 0⟩ := by
  have hset : loopRow.perform (.update ⟨0, 2⟩ (.const 7)) =
      some (loopRow.set ⟨2, by decide⟩ (.const 7)) := by
    have hreduce : (Formula.const 7).reduce loopRow.bindings = .ok (.const 7) := by
      simp [reduce, reduceOn]
    exact perform_update rfl hreduce
  have hb : ∀ name f, loopRow.builtin? name = some f → ∀ next ∈ f.refs, ∀ c,
      Cell.parse next = .ok c → c ∉ loopRow.extent := by
    intro name f hf next hnext c hc
    have hmem : (name, f) ∈ [("k", Formula.ref "k")] := Bindings.mem_of_lookup_eq_some hf
    obtain ⟨-, rfl⟩ : name = "k" ∧ f = .ref "k" := by simpa using hmem
    obtain rfl : next = "k" := by simpa using hnext
    have hk : Cell.parse "k" = .error (.invalidName (.letter 'k')) := rfl
    simp [hk] at hc
  have hunused : loopRow.usedBy ⟨0, 2⟩ = [] := by
    show (Node.passes ["C0"] loopRow.nodes).flatten.map Node.key = []
    have hpass : Node.pass ["C0"] loopRow.nodes = ⟨[], loopRow.nodes⟩ := rfl
    rw [Node.passes, hpass]
    rfl
  exact ⟨_, hset, valueAt_of_not_mem_usedBy hb hset (by decide) (by simp [Edit.cell, hunused])⟩

/-- Right after a formula was put into a cell, the cell shows what the formula came to before, or a
circular reference if the formula reaches the cell. -/
theorem valueAt_update {t : Sheet} {a : Cell} {f : Formula} (h : s.update a f = .ok t) :
    ∃ v, f.reduce s.bindings = .ok v ∧
      (¬Reaches s.bindings f a.label → t.valueAt a = .ok v) ∧
      (Reaches s.bindings f a.label → ∃ name, t.valueAt a = .error (.eval (.circular name))) := by
  obtain ⟨i, v, rfl, hv, rfl⟩ := update_eq_ok_iff.mp h
  have hagree : ∀ name, name ≠ (s.extent.cell i).label →
      (s.set i f).bindings.find? name = s.bindings.find? name := fun _ => find?_set_of_ne i f
  have hf : (s.set i f).formulaAt (s.extent.cell i) = .ok f := by
    rw [formulaAt_set, if_pos rfl]
  rw [valueAt_of_formulaAt hf]
  refine ⟨v, hv, fun hr => ?_, fun hr => ?_⟩
  · rw [reduce_congr (agree_of_not_reaches hagree hr), hv]
    rfl
  · have hno := (gives_of_reduce_eq_ok hv).no_outcome_of_reaches hagree (find?_set_self i f) hr
    rcases circular_or_gives_reduce (s.set i f).bindings f with ⟨name, hc⟩ | hg
    · exact ⟨name, by rw [hc]; rfl⟩
    · exact absurd ⟨_, hg⟩ hno

theorem loopRow_self_sum_circular :
    ∃ t name, loopRow.update ⟨0, 2⟩ (.app .plus [.ref "C0", .const 1]) = .ok t ∧
      t.valueAt ⟨0, 2⟩ = .error (.eval (.circular name)) := by
  have hc : loopRow.bindings.find? "C0" = some (.const 1) := rfl
  have hset : loopRow.update ⟨0, 2⟩ (.app .plus [.ref "C0", .const 1]) =
      .ok (loopRow.set ⟨2, by decide⟩ (.app .plus [.ref "C0", .const 1])) := by
    refine update_eq_ok_iff.mpr ⟨⟨2, by decide⟩, .const 2, rfl, ?_, rfl⟩
    simp [reduce, reduceOn_app, demandAll_cons, reduceOn_ref, hc, reduceOn, demandAll, demand,
      Operation.plus, Arithmetic.sum, Except.map]
  have hlabel : (⟨0, 2⟩ : Cell).label = "C0" := rfl
  obtain ⟨-, -, -, hcircular⟩ := valueAt_update hset
  obtain ⟨name, hname⟩ := hcircular (.here (by simp [hlabel]))
  exact ⟨_, name, hset, hname⟩

end FormulaGrid.Sheet
