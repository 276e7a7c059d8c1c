import FormulaGrid.Formula.Basic

/-!
# Formula.Bindings — names and the formulas they stand for

Bindings give formulas to finitely many names.  They are a look-up and not a list, so a sheet can
serve as bindings without writing out its cells.
-/

namespace FormulaGrid

/-- Formulas for finitely many names. -/
structure Bindings where
  find? : String → Option Formula
  finite : ∃ names : List String, ∀ name f, find? name = some f → name ∈ names

namespace Bindings

/-- No name is bound. -/
def empty : Bindings := ⟨fun _ => none, [], by simp⟩

/-- The entries of a list that no later entry of the same name replaces. -/
def latest : List (String × Formula) → List (String × Formula)
  | [] => []
  | entry :: entries =>
    if entry.1 ∈ entries.map Prod.fst then latest entries else entry :: latest entries

theorem mem_of_lookup_eq_some {entries : List (String × Formula)} {name : String} {f : Formula}
    (h : entries.lookup name = some f) : (name, f) ∈ entries := by
  induction entries with
  | nil => cases h
  | cons entry entries ih =>
    rw [List.lookup_cons] at h
    split at h
    next e =>
      cases h
      rw [beq_iff_eq.1 e]
      exact .head _
    next => exact .tail _ (ih h)

/-- A name has the formula of its last entry. -/
theorem lookup_latest (entries : List (String × Formula)) (name : String) :
    (latest entries).lookup name = entries.reverse.lookup name := by
  induction entries with
  | nil => rfl
  | cons entry entries ih =>
    have hnone : entries.reverse.lookup name = none ↔ name ∉ entries.map Prod.fst := by
      simp only [List.lookup_eq_none_iff, List.mem_reverse, List.mem_map, bne_iff_ne]
      exact ⟨fun h ⟨p, hp, e⟩ => h p hp e.symm, fun h p hp e => h ⟨p, hp, e.symm⟩⟩
    rw [List.reverse_cons, List.lookup_append, latest]
    split
    next h =>
      by_cases e : name = entry.1
      · obtain ⟨f, hf⟩ := Option.ne_none_iff_exists'.1 (mt hnone.1 (by simpa [e] using h))
        rw [ih, hf, Option.some_or]
      · rw [ih, List.lookup_cons, beq_false_of_ne e, List.lookup_nil, Option.or_none]
    next h =>
      rw [List.lookup_cons, List.lookup_cons, ih]
      by_cases e : name = entry.1
      · rw [hnone.2 (e ▸ h), Option.none_or, e, beq_self_eq_true]
      · rw [beq_false_of_ne e, List.lookup_nil, Option.or_none]

/-- The bindings of entries, of which the first one of a name counts. -/
def ofEntries (entries : List (String × Formula)) : Bindings where
  find? name := entries.lookup name
  finite := ⟨entries.map Prod.fst, fun _ _ h => List.mem_map_of_mem (mem_of_lookup_eq_some h)⟩

/-- The bindings of a list, where later entries replace earlier ones. -/
def ofList (entries : List (String × Formula)) : Bindings := ofEntries (latest entries)

end Bindings

end FormulaGrid
