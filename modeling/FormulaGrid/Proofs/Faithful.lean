import FormulaGrid.Proofs.Comparison
import FormulaGrid.Proofs.Display

/-!
# Proofs.Faithful — formulas that are shown faithfully

The text of a formula of a text is always a formula text.  It is read as the same formula exactly if all
operations in the formula are kept: only then does no operator stand between two blanks, no call over a
blank alone, and no comma node in a place where its parts are taken out of it (`parse_render_of_parse`).
-/

namespace FormulaGrid.Formula

open Catalog

/-! ### What comes back unchanged has kept operations only -/

/-- If every member of a list becomes at least one part, and all parts together are the list, then every
member is its own only part. -/
theorem eq_singleton_of_flatMap_eq {α : Type} {p : α → List α} {as : List α}
    (hpos : ∀ a ∈ as, 0 < (p a).length) (h : as.flatMap p = as) : ∀ a ∈ as, p a = [a] := by
  induction as with
  | nil => simp
  | cons a as ih =>
    have hrest : ∀ x ∈ as, 0 < (p x).length := fun x hx => hpos x (by simp [hx])
    have hle := length_le_length_flatMap hrest
    have hlen := congrArg List.length h
    have hfirst := hpos a (by simp)
    rw [List.flatMap_cons, List.length_append, List.length_cons] at hlen
    obtain ⟨x, hx⟩ := List.length_eq_one_iff.mp (show (p a).length = 1 by omega)
    rw [List.flatMap_cons, hx, List.singleton_append, List.cons.injEq] at h
    obtain ⟨rfl, htail⟩ := h
    exact List.forall_mem_cons.mpr ⟨hx, ih hrest htail⟩

/-- A formula that is its own only part is read as itself and is no comma node. -/
theorem reread_eq_of_parts_eq {f : Formula} (h : Written f) (hf : f.parts = [f]) :
    f.reread = f ∧ ∀ fs, f ≠ app .comma fs := by
  have hw : Written f.reread := Builder.written_of_parse (parse_render h)
  rw [Formula.parts] at hf
  rcases unpack_written hw with ⟨args, hargs, hlen, -⟩ | ⟨hsole, hno⟩
  · rw [hargs, unpack_comma] at hf
    simp [hf] at hlen
  · have hself : f.reread = f := by simpa [hsole] using hf
    exact ⟨hself, hself ▸ hno⟩

theorem parts_eq_of_reread_eq {args : List Formula} (hargs : ∀ a ∈ args, Written a)
    (h : args.flatMap Formula.parts = args) :
    ∀ a ∈ args, a.reread = a ∧ ∀ fs, a ≠ app .comma fs := by
  have hpos : ∀ a ∈ args, 0 < a.parts.length :=
    fun a ha => (rereads_of_written (hargs a ha)).reads.length_pos
  exact fun a ha => reread_eq_of_parts_eq (hargs a ha) (eq_singleton_of_flatMap_eq hpos h a ha)

/-- A formula that its text is read as has kept operations only. -/
theorem everywhere_kept_of_reread_eq {f : Formula} (h : Written f) (hf : f.reread = f) :
    f.Everywhere Kept := by
  induction h with
  | blank => exact .leaf trivial
  | const => exact .leaf trivial
  | ref => exact .leaf trivial
  | alone hs =>
    refine .app ⟨by simp, by simp [style_symbol hs], by simp [style_symbol hs]⟩ ?_
    intro a ha
    obtain rfl : a = blank := by simpa using ha
    exact .leaf trivial
  | @pair s hs l r hleaf _ _ _ ihr =>
    by_cases hblank : l = blank ∧ r = blank
    · obtain ⟨rfl, rfl⟩ := hblank
      rw [reread_pair_blank hs] at hf
      simp at hf
    · rw [reread_pair hs hleaf hblank] at hf
      have hr : r.reread = r := by simpa using hf
      refine .app ⟨?_, by simp [style_symbol hs], by simp [style_symbol hs]⟩ ?_
      · rintro - hboth
        exact hblank (by simpa using hboth)
      · intro a ha
        rcases List.mem_pair.mp ha with rfl | rfl
        · exact .leaf hleaf
        · exact ihr hr
  | @call op hop args hne hargs _ ih =>
    have hstyle := style_average hop
    have hblank : args ≠ [blank] := by
      rintro rfl
      rw [reread_call_blank hstyle] at hf
      cases hf
    rw [reread_call hstyle hblank] at hf
    have hflat : args.flatMap Formula.parts = args := by simpa using hf
    have hparts := parts_eq_of_reread_eq hargs hflat
    refine .app ⟨by simp [hstyle], fun _ => hblank, fun _ fs hm => (hparts _ hm).2 fs rfl⟩ ?_
    exact fun a ha => ih a ha (hparts a ha).1
  | @list args hlen hargs ih =>
    rw [reread_list] at hf
    have hflat : args.flatMap Formula.parts = args := by simpa using hf
    have hparts := parts_eq_of_reread_eq hargs hflat
    have hbetween : Operation.comma.style ≠ .between := by decide
    have hcall : Operation.comma.style ≠ .call := by decide
    refine .app ⟨fun h => absurd h hbetween, fun h => absurd h hcall,
      fun _ fs hm => (hparts _ hm).2 fs rfl⟩ ?_
    exact fun a ha => ih a ha (hparts a ha).1

theorem reread_eq_self_iff {f : Formula} (h : Written f) : f.reread = f ↔ f.Everywhere Kept :=
  ⟨everywhere_kept_of_reread_eq h, reread_eq_self h⟩

/-! ### Formulas of texts -/

theorem over_standard_of_written {f : Formula} (h : Written f) : f.Over standard := by
  have hsymbol : ∀ s : Symbol, s.operation ∈ standard.ops := by
    intro s
    cases s <;> simp [ops_standard, Symbol.operation]
  induction h with
  | blank => simp [Over]
  | const => simp [Over]
  | ref => simp [Over]
  | @alone s => exact over_app_iff.mpr ⟨hsymbol s, by simp [Over]⟩
  | @pair s _ l r hleaf _ _ ihl ihr =>
    exact over_app_iff.mpr ⟨hsymbol s, by simp [ihl, ihr]⟩
  | call hop _ _ _ ih =>
    refine over_app_iff.mpr ⟨?_, ih⟩
    rcases hop with rfl | rfl <;> simp [ops_standard]
  | list _ _ ih => exact over_app_iff.mpr ⟨hsymbol .comma, ih⟩

/-- The text of a formula of a text is a formula text.  It is read as a formula that is equal to the
first one, or alike, exactly if all operations in the first one are kept. -/
theorem parse_render_of_parse {text : String} {f : Formula} (h : standard.parse text = .ok f) :
    ∃ g, standard.parse f.render = .ok g ∧ (g = f ↔ f.Everywhere Kept) ∧
      ((g == f) = true ↔ f.Everywhere Kept) := by
  have hw := Builder.written_of_parse h
  have hg := parse_render hw
  have hover := over_standard_of_written (Builder.written_of_parse hg)
  have hiff := reread_eq_self_iff hw
  exact ⟨f.reread, hg, hiff, (same_iff_eq hover (over_standard_of_written hw)).trans hiff⟩

/-- A call over a group of two and a number. -/
def groupInCall : Formula :=
  .app .minus [.const 4, .app .mean [.app .comma [.const 1, .const 2], .const 3]]

theorem groupInCall_text_differs :
    standard.parse "4 - MEAN((1, 2), 3)" = .ok groupInCall ∧
      ∃ g, standard.parse groupInCall.render = .ok g ∧ g ≠ groupInCall := by
  have hparse : standard.parse "4 - MEAN((1, 2), 3)" = .ok groupInCall := by with_unfolding_all rfl
  obtain ⟨g, hg, heq, -⟩ := parse_render_of_parse hparse
  refine ⟨hparse, g, hg, fun h => ?_⟩
  cases heq.mp h with
  | leaf h => exact h
  | app _ hargs =>
    cases hargs (.app .mean [.app .comma [.const 1, .const 2], .const 3]) (by simp) with
    | leaf h => exact h
    | app hkept _ => exact hkept.2.2 (by decide) [.const 1, .const 2] (by simp)

end FormulaGrid.Formula
