import FormulaGrid.Proofs.Usage

/-!
# Proofs.EditedUse — an edit leaves the users of its cell alone

A chain that leads to a name need not go on behind the first node with that name, so what this node's own
formula says does not matter to other nodes (`Linked.of_agree`).  Hence an edit of a cell changes the users of
that cell in the cell itself only, and the new formula tells whether it is one of them
(`mem_usedBy_of_perform`).
-/

namespace FormulaGrid

namespace Node

variable {κ : Type} {nodes nodes' : List (Node κ)} {target : String} {n : Node κ}

/-- A node on a chain uses the target, or it uses a node on a chain that does not have the target's name. -/
theorem linked_iff : Linked nodes target n ↔ n ∈ nodes ∧
    (target ∈ n.formula.refs ∨
      ∃ m, m.name ≠ target ∧ m.name ∈ n.formula.refs ∧ Linked nodes target m) := by
  constructor
  · intro h
    cases h with
    | direct hn h => exact ⟨hn, .inl h⟩
    | @through n m hn h hm =>
      refine ⟨hn, ?_⟩
      by_cases hname : m.name = target
      · exact .inl (hname ▸ h)
      · exact .inr ⟨m, hname, h, hm⟩
  · rintro ⟨hn, h | ⟨m, -, h, hm⟩⟩
    · exact .direct hn h
    · exact .through hn h hm

/-- Chains to a name are cut off at the first node with that name, so they do not depend on such nodes. -/
theorem Linked.of_agree (h : Linked nodes target n)
    (hagree : ∀ m ∈ nodes, m.name ≠ target → m ∈ nodes') (hn : n.name ≠ target) :
    Linked nodes' target n := by
  induction h with
  | direct hmem h => exact .direct (hagree _ hmem hn) h
  | @through n m hmem h hm ih =>
    -- a next node with the target's name is where the chain has arrived already
    by_cases hname : m.name = target
    · exact .direct (hagree _ hmem hn) (hname ▸ h)
    · exact .through (hagree _ hmem hn) h (ih hname)

end Node

namespace Sheet

variable {s : Sheet}

theorem node_set_of_ne {i j : Fin s.extent.size} (f : Formula) (hij : i ≠ j) :
    (s.set i f).node j = s.node j := by
  have hf : (s.set i f).formula j = s.formula j := by rw [formula_set, if_neg hij]
  exact congrArg (Node.mk (s.extent.cell j) (s.extent.cell j).label) hf

/-- To set a cell changes only the node with its name. -/
theorem mem_nodes_set_iff {i : Fin s.extent.size} {f : Formula} {n : Node Cell}
    (hn : n.name ≠ (s.extent.cell i).label) : n ∈ (s.set i f).nodes ↔ n ∈ s.nodes := by
  constructor
  · intro h
    obtain ⟨j, rfl⟩ := mem_nodes_iff.mp h
    have hij : i ≠ j := fun hij => hn (hij ▸ rfl)
    exact mem_nodes_iff.mpr ⟨j, node_set_of_ne f hij⟩
  · intro h
    obtain ⟨j, rfl⟩ := mem_nodes_iff.mp h
    have hij : i ≠ j := fun hij => hn (hij ▸ rfl)
    exact mem_nodes_iff.mpr ⟨j, (node_set_of_ne f hij).symm⟩

theorem mem_usedBy_set_cell_iff {i j : Fin s.extent.size} {f : Formula} :
    s.extent.cell j ∈ (s.set i f).usedBy (s.extent.cell i) ↔
      Node.Linked (s.set i f).nodes (s.extent.cell i).label ((s.set i f).node j) :=
  mem_usedBy_cell_iff (s := s.set i f)

/-- The other users of a cell are the same after the cell was set. -/
theorem mem_usedBy_set_iff {i : Fin s.extent.size} {f : Formula} {a : Cell} (ha : a ≠ s.extent.cell i) :
    a ∈ (s.set i f).usedBy (s.extent.cell i) ↔ a ∈ s.usedBy (s.extent.cell i) := by
  by_cases hcell : ∃ j, s.extent.cell j = a
  · obtain ⟨j, rfl⟩ := hcell
    have hij : i ≠ j := fun hij => ha (hij ▸ rfl)
    have hname : (s.node j).name ≠ (s.extent.cell i).label := fun h => hij (label_injective h.symm)
    rw [mem_usedBy_set_cell_iff, mem_usedBy_cell_iff, node_set_of_ne f hij]
    exact ⟨fun h => h.of_agree (fun _ hm hn => (mem_nodes_set_iff hn).mp hm) hname,
      fun h => h.of_agree (fun _ hm hn => (mem_nodes_set_iff hn).mpr hm) hname⟩
  · have hafter : a ∉ (s.set i f).usedBy (s.extent.cell i) := fun h =>
      hcell (exists_cell_of_mem_usedBy (s := s.set i f) h)
    exact iff_of_false hafter fun h => hcell (exists_cell_of_mem_usedBy h)

/-- A cell that was set uses itself if its formula names the cell, or another one of its users. -/
theorem mem_usedBy_set_self_iff {i : Fin s.extent.size} {f : Formula} :
    s.extent.cell i ∈ (s.set i f).usedBy (s.extent.cell i) ↔
      (s.extent.cell i).label ∈ f.refs ∨
        ∃ a ∈ s.usedBy (s.extent.cell i), a ≠ s.extent.cell i ∧ a.label ∈ f.refs := by
  have hformula : ((s.set i f).node i).formula = f := (formula_set i i f).trans (if_pos rfl)
  have hmem : (s.set i f).node i ∈ (s.set i f).nodes := mem_nodes_iff.mpr ⟨i, rfl⟩
  rw [mem_usedBy_set_cell_iff, Node.linked_iff, hformula, and_iff_right hmem]
  refine or_congr_right ⟨?_, ?_⟩
  · rintro ⟨n, hn, href, hlinked⟩
    obtain ⟨j, rfl⟩ := mem_nodes_iff.mp hlinked.mem
    have hne : s.extent.cell j ≠ s.extent.cell i := fun h => hn (congrArg Cell.label h)
    exact ⟨_, (mem_usedBy_set_iff hne).mp (mem_usedBy_set_cell_iff.mpr hlinked), hne, href⟩
  · rintro ⟨a, hused, hne, href⟩
    obtain ⟨j, rfl⟩ := exists_cell_of_mem_usedBy hused
    have hafter : s.extent.cell j ∈ (s.set i f).usedBy (s.extent.cell i) :=
      (mem_usedBy_set_iff hne).mpr hused
    have hname : ((s.set i f).node j).name ≠ (s.extent.cell i).label := fun h =>
      hne (congrArg s.extent.cell (label_injective h))
    exact ⟨_, hname, href, mem_usedBy_set_cell_iff.mp hafter⟩

/-- An edit of a cell changes nothing about which other cells use it.  The cell itself is one of its users after
the edit exactly if the new formula names the cell, or another cell that used it before. -/
theorem mem_usedBy_of_perform {t : Sheet} {e : Edit} (h : s.perform e = some t) :
    (∀ a, a ≠ e.cell → (a ∈ t.usedBy e.cell ↔ a ∈ s.usedBy e.cell)) ∧
    ∃ f, e.formula s.read s.initial = .ok f ∧ t.formulaAt e.cell = .ok f ∧
      (e.cell ∈ t.usedBy e.cell ↔
        e.cell.label ∈ f.refs ∨ ∃ a ∈ s.usedBy e.cell, a ≠ e.cell ∧ a.label ∈ f.refs) := by
  obtain ⟨i, f, hi, hf, rfl⟩ := set_of_perform h
  rw [← hi]
  have hformula : (s.set i f).formulaAt (s.extent.cell i) = .ok f := by
    rw [formulaAt_set, if_pos rfl]
  exact ⟨fun a ha => mem_usedBy_set_iff ha, f, hf, hformula, mem_usedBy_set_self_iff⟩

/-- A row of three cells, each of which but the first stands for the one before it. -/
def stairRow : Sheet where
  read _ := .ok .blank
  extent := .oneByThree
  initial := .const 1
  builtins := [("k", .ref "A0")]
  cells := #v[.const 1, .ref "A0", .ref "B0"]

theorem stairRow_closed_up :
    ∃ t, stairRow.perform (.update ⟨0, 0⟩ (.app .plus [.ref "C0", .ref "k"])) = some t ∧
      ⟨0, 2⟩ ∈ t.usedBy ⟨0, 0⟩ ∧ ⟨0, 0⟩ ∈ t.usedBy ⟨0, 0⟩ := by
  have hA : stairRow.bindings.find? "A0" = some (.const 1) := rfl
  have hB : stairRow.bindings.find? "B0" = some (.ref "A0") := rfl
  have hC : stairRow.bindings.find? "C0" = some (.ref "B0") := rfl
  have hk : stairRow.bindings.find? "k" = some (.ref "A0") := rfl
  have hset : stairRow.perform (.update ⟨0, 0⟩ (.app .plus [.ref "C0", .ref "k"])) =
      some (stairRow.set ⟨0, by decide⟩ (.app .plus [.ref "C0", .ref "k"])) := by
    refine perform_update (v := .const 2) rfl ?_
    simp [Formula.reduce, Formula.reduceOn_app, Formula.demandAll_cons, Formula.reduceOn_ref, hA, hB, hC,
      hk, Formula.reduceOn, Formula.demandAll, Formula.demand, Operation.plus, Arithmetic.sum, Except.map]
  have hfirst : (⟨0, 0⟩ : Cell).label = "A0" := rfl
  have hlast : (⟨0, 2⟩ : Cell).label = "C0" := rfl
  have hbare : stairRow.bare.bindings.find? "B0" = some (.ref "A0") := rfl
  have hused : ⟨0, 2⟩ ∈ stairRow.usedBy ⟨0, 0⟩ := by
    have hthird : stairRow.formulaAt ⟨0, 2⟩ = .ok (.ref "B0") := rfl
    rw [mem_usedBy_iff_bare (by decide) hthird, hfirst]
    exact .step (by simp) hbare (.here (by simp))
  obtain ⟨hother, f, hf, -, hself⟩ := mem_usedBy_of_perform hset
  cases hf
  refine ⟨_, hset, (hother _ (by decide)).mpr hused, hself.mpr (.inr ⟨_, hused, by decide, ?_⟩)⟩
  simp [hlast]

end Sheet

end FormulaGrid
