import FormulaGrid.Proofs.Locality

/-!
# Proofs.Usage — the cells that use a cell

The users of a cell are found from cell to cell: they are the cells from which a chain of references
through cells leads to it (`mem_usedBy_iff_bare`).  Values are found by way of builtins too.  So a cell
all of whose chains lead through a builtin has a value that passes through the cell at their end, and is
not one of its users (`mem_usedBy_iff_reaches`, `relayRow_user_missed`).
-/

namespace FormulaGrid

namespace Formula

/-- A chain to a bound name goes on along the chains of its formula. -/
theorem Reaches.trans {b : Bindings} {f g : Formula} {name target : String}
    (h : Reaches b f name) (hg : b.find? name = some g) (hr : Reaches b g target) :
    Reaches b f target := by
  induction h with
  | here h => exact .step h hg hr
  | step h hg' _ ih => exact .step h hg' (ih hg)

/-- Chains of references are chains also where more names are bound. -/
theorem Reaches.mono {b b' : Bindings} {f : Formula} {target : String}
    (hb : ∀ name g, b.find? name = some g → b'.find? name = some g) (h : Reaches b f target) :
    Reaches b' f target := by
  induction h with
  | here h => exact .here h
  | step h hg _ ih => exact .step h (hb _ _ hg) ih

/-- Where more names are bound, a chain is an old one, or an old one leads to a name that was free
before and the chain goes on from there. -/
theorem reaches_iff_of_extends {b b' : Bindings} {f : Formula} {target : String}
    (hb : ∀ name g, b.find? name = some g → b'.find? name = some g) :
    Reaches b' f target ↔ Reaches b f target ∨
      ∃ name g, Reaches b f name ∧ b.find? name = none ∧ b'.find? name = some g ∧
        Reaches b' g target := by
  constructor
  · intro h
    induction h with
    | here h => exact .inl (.here h)
    | @step f g next target h hg hr ih =>
      cases hnext : b.find? next with
      | none => exact .inr ⟨next, g, .here h, hnext, hg, hr⟩
      | some g' =>
        obtain rfl : g' = g := Option.some.inj ((hb _ _ hnext).symm.trans hg)
        rcases ih with ih | ⟨name, g, hname, hnone, hsome, hr'⟩
        · exact .inl (.step h hnext ih)
        · exact .inr ⟨name, g, .step h hnext hname, hnone, hsome, hr'⟩
  · rintro (h | ⟨name, g, hname, -, hg, hr⟩)
    · exact h.mono hb
    · exact (hname.mono hb).trans hg hr

end Formula

namespace Sheet

open Formula

variable {s : Sheet}

/-! ### Chains through cells alone -/

/-- The sheet without its builtins. -/
def bare (s : Sheet) : Sheet := { s with builtins := [] }

/-- A name is looked up among the cells first, and then among the builtins. -/
theorem find?_eq_or (s : Sheet) (name : String) :
    s.bindings.find? name = (s.bare.bindings.find? name).or (s.builtin? name) := by
  have hindex : s.bare.indexOf name = s.indexOf name := rfl
  rw [find?_bindings, find?_bindings, resolve, resolve, hindex]
  cases s.indexOf name <;> rfl

theorem find?_of_bare {name : String} {f : Formula} (h : s.bare.bindings.find? name = some f) :
    s.bindings.find? name = some f := by
  rw [find?_eq_or, h, Option.some_or]

/-- A chain of cells is a chain of references through cells. -/
theorem reaches_of_linked {n : Node Cell} {target : String} (h : Node.Linked s.nodes target n) :
    Reaches s.bare.bindings n.formula target := by
  induction h with
  | direct _ h => exact .here h
  | through _ h hm ih =>
    obtain ⟨k, rfl⟩ := mem_nodes_iff.mp hm.mem
    have hk : s.bare.bindings.find? (s.extent.cell k).label = some (s.formula k) :=
      (find?_bindings _ _).trans (resolve_label (s := s.bare) k)
    exact .step h hk ih

/-- The users of a cell are the cells from which a chain of references through cells leads to it. -/
theorem mem_usedBy_iff_bare {a c : Cell} (hc : c ∈ s.extent) {f : Formula}
    (hf : s.formulaAt a = .ok f) : a ∈ s.usedBy c ↔ Reaches s.bare.bindings f c.label := by
  obtain ⟨i, rfl⟩ := Extent.exists_cell_eq hc
  obtain ⟨j, hj, rfl⟩ := Except.map_eq_ok_iff.mp hf
  obtain rfl := Extent.index_eq_ok_iff.mp hj
  rw [mem_usedBy_cell_iff]
  refine ⟨fun h => reaches_of_linked h, fun h => ?_⟩
  have hbare : ∀ name g, s.bare.builtin? name = some g → ∀ next ∈ g.refs, ∀ k,
      next ≠ (s.bare.extent.cell k).label := by
    intro name g hg
    cases hg
  exact linked_of_reaches hbare h j rfl

/-! ### Chains through builtins -/

/-- A chain leads to a cell from the users of the cell, and from cells that lead through cells to a
builtin from which the chain goes on. -/
theorem reaches_iff_mem_usedBy_or {a c : Cell} (hc : c ∈ s.extent) {f : Formula}
    (hf : s.formulaAt a = .ok f) :
    Reaches s.bindings f c.label ↔ a ∈ s.usedBy c ∨
      ∃ name g, Reaches s.bare.bindings f name ∧ s.bare.bindings.find? name = none ∧
        s.builtin? name = some g ∧ Reaches s.bindings g c.label := by
  rw [mem_usedBy_iff_bare hc hf, reaches_iff_of_extends fun _ _ => find?_of_bare]
  refine or_congr_right (exists₂_congr fun name g => and_congr_right fun _ => ?_)
  refine and_congr_right fun hnone => ?_
  rw [find?_eq_or, hnone, Option.none_or]

/-- A cell is a user of another exactly if a chain of references through cells leads to it.  So it is one
for every chain to that cell exactly if, when a chain goes by way of a builtin, another one does not. -/
theorem mem_usedBy_iff_reaches {a c : Cell} (hc : c ∈ s.extent) {f : Formula}
    (hf : s.formulaAt a = .ok f) :
    (a ∈ s.usedBy c ↔ Reaches s.bare.bindings f c.label) ∧
      ((a ∈ s.usedBy c ↔ Reaches s.bindings f c.label) ↔
        ∀ name g, Reaches s.bare.bindings f name → s.bare.bindings.find? name = none →
          s.builtin? name = some g → Reaches s.bindings g c.label →
          Reaches s.bare.bindings f c.label) := by
  have hcells := mem_usedBy_iff_bare hc hf
  refine ⟨hcells, ?_⟩
  rw [reaches_iff_mem_usedBy_or hc hf, ← hcells, iff_self_or]
  constructor
  · exact fun h name g hname hnone hg hr => h ⟨name, g, hname, hnone, hg, hr⟩
  · rintro h ⟨name, g, hname, hnone, hg, hr⟩
    exact h name g hname hnone hg hr

theorem loopRow_mutual_users :
    ⟨0, 0⟩ ∈ loopRow.usedBy ⟨0, 1⟩ ∧ ⟨0, 1⟩ ∈ loopRow.usedBy ⟨0, 0⟩ := by
  have hfirst : loopRow.formulaAt ⟨0, 0⟩ = .ok (.ref "B0") := rfl
  have hsecond : loopRow.formulaAt ⟨0, 1⟩ = .ok (.ref "A0") := rfl
  have hA : (⟨0, 0⟩ : Cell).label = "A0" := rfl
  have hB : (⟨0, 1⟩ : Cell).label = "B0" := rfl
  exact ⟨(mem_usedBy_iff_reaches (by decide) hfirst).1.mpr (.here (by simp [hB])),
    (mem_usedBy_iff_reaches (by decide) hsecond).1.mpr (.here (by simp [hA]))⟩

/-- A row of two blank cells, with a builtin that stands for the second one. -/
def relayRow : Sheet where
  read := Catalog.standard.parse
  extent := .oneByTwo
  initial := .blank
  builtins := [("k", .ref "B0")]
  cells := Vector.replicate _ .blank

theorem relayRow_user_missed :
    create Catalog.standard.parse ⟨1, 2, .blank, [("k", .ref "B0")]⟩ = .ok relayRow ∧
      ∃ t, relayRow.update ⟨0, 0⟩ (.ref "k") = .ok t ∧ t.formulaAt ⟨0, 0⟩ = .ok (.ref "k") ∧
        Reaches t.bindings (.ref "k") (⟨0, 1⟩ : Cell).label ∧ ⟨0, 0⟩ ∉ t.usedBy ⟨0, 1⟩ := by
  have hk : relayRow.bindings.find? "k" = some (.ref "B0") := rfl
  have hB : relayRow.bindings.find? "B0" = some .blank := rfl
  have hreduce : (Formula.ref "k").reduce relayRow.bindings = .ok .blank := by
    simp [reduce, reduceOn_ref, hk, hB, reduceOn]
  have hlabel : (⟨0, 1⟩ : Cell).label = "B0" := rfl
  have hset := update_eq_ok_iff.mpr ⟨⟨0, by decide⟩, .blank, rfl, hreduce, rfl⟩
  have hf : (relayRow.set ⟨0, by decide⟩ (.ref "k")).formulaAt ⟨0, 0⟩ = .ok (.ref "k") := rfl
  refine ⟨rfl, _, hset, hf, ?_, ?_⟩
  · have hstill : (relayRow.set ⟨0, by decide⟩ (.ref "k")).bindings.find? "k" =
        some (.ref "B0") := rfl
    rw [hlabel]
    exact .step (by simp) hstill (.here (by simp))
  · rw [mem_usedBy_iff_bare (by decide) hf, hlabel]
    have hbare : (relayRow.set ⟨0, by decide⟩ (.ref "k")).bare.bindings.find? "k" = none := rfl
    intro h
    rcases reaches_ref_iff.mp h with h | ⟨g, hg, -⟩
    · exact absurd h (by decide)
    · rw [hbare] at hg
      cases hg

end Sheet

end FormulaGrid
