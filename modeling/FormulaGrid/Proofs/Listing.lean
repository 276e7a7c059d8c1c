import FormulaGrid.Proofs.Enclosure

/-!
# Proofs.Listing — arguments that are listed first

An operation over a sole comma node takes the arguments of that node.  No other name has the upper-case
form of an operator symbol (`upper_eq_symbol_iff`), so in every catalog a comma makes a comma node, and
arguments that are put into a list first are combined as if they had not been (`Catalog.combine_listed`).
-/

namespace FormulaGrid

/-! ### Spellings of operator symbols -/

theorem toNat_symbol (s : Symbol) : 0 < s.char.toNat ∧ s.char.toNat < 65 := by cases s <;> decide

theorem caseRuns_behind_symbols : ∀ run ∈ caseRuns, 65 ≤ (run.first : Int) + run.shift := by
  decide +kernel

theorem caseExpansions_behind_symbols :
    ∀ entry ∈ caseExpansions, entry.2 ≠ [] ∧ ∀ n ∈ entry.2, 65 ≤ n := by
  decide +kernel

theorem toNat_ofNat_of_le {n : Nat} (h : 65 ≤ n) :
    (Char.ofNat n).toNat = 0 ∨ 65 ≤ (Char.ofNat n).toNat := by
  by_cases hvalid : n.isValidChar
  · have hchar : Char.ofNat n = Char.ofNatAux n hvalid := dif_pos hvalid
    rw [hchar]
    exact .inr h
  · have hchar : Char.ofNat n = Char.ofNatAux 0 (.inl (by decide)) := dif_neg hvalid
    rw [hchar]
    exact .inl rfl

theorem mem_caseExpansions_of_lookup {n : Nat} {form : List Nat}
    (h : caseExpansions.lookup n = some form) : (n, form) ∈ caseExpansions := by
  obtain ⟨before, after, heq, -⟩ := List.lookup_eq_some_iff.mp h
  rw [heq]
  simp

/-- No character has the empty upper-case form. -/
theorem upperChar_ne_nil (c : Char) : upperChar c ≠ [] := by
  unfold upperChar
  split
  · simp
  split
  next form hform =>
    have hne := (caseExpansions_behind_symbols _ (mem_caseExpansions_of_lookup hform)).1
    simpa using hne
  next => split <;> simp

/-- Beyond ASCII, upper-case forms are made of characters behind all operator symbols. -/
theorem toNat_of_mem_upperChar {c x : Char} (hc : 0x80 ≤ c.toNat) (hx : x ∈ upperChar c) :
    x.toNat = 0 ∨ 65 ≤ x.toNat := by
  rw [upperChar, if_neg (by omega)] at hx
  split at hx
  next form hform =>
    obtain ⟨n, hn, rfl⟩ := List.mem_map.mp hx
    have hle := (caseExpansions_behind_symbols _ (mem_caseExpansions_of_lookup hform)).2 n hn
    exact toNat_ofNat_of_le hle
  next =>
    split at hx
    next run hrun =>
      obtain rfl := List.mem_singleton.mp hx
      have hle := caseRuns_behind_symbols run (List.mem_of_find?_eq_some hrun)
      have hholds := List.find?_some hrun
      simp only [CaseRun.holds, Bool.and_eq_true, decide_eq_true_eq] at hholds
      exact toNat_ofNat_of_le (by omega)
    next =>
      obtain rfl := List.mem_singleton.mp hx
      exact .inr (by omega)

/-- Only the symbol itself is raised to an operator symbol. -/
theorem eq_symbol_of_upperChar {c : Char} {s : Symbol} (h : upperChar c = [s.char]) : c = s.char := by
  have hrange := toNat_symbol s
  by_cases hc : c.toNat < 0x80
  · have hascii : ∀ n < 0x80, (Char.ofNat n).toUpper.toNat < 65 →
        (Char.ofNat n).toUpper = Char.ofNat n := by decide
    have hupper : c.toUpper = s.char := by simpa [upperChar_ascii hc] using h
    have hsame := hascii c.toNat hc
    rw [Char.ofNat_toNat, hupper] at hsame
    exact (hsame hrange.2).symm
  · have hmem : s.char ∈ upperChar c := by simp [h]
    have hbehind := toNat_of_mem_upperChar (Nat.not_lt.mp hc) hmem
    omega

/-- An operator symbol is its own upper-case form, and that of no other name. -/
theorem upper_eq_symbol_iff {name : String} {s : Symbol} : upper name = s.name ↔ name = s.name := by
  constructor
  · intro h
    have hlist : name.toList.flatMap upperChar = [s.char] := by
      rw [← toList_upper, h, Symbol.name, String.toList_singleton]
    cases hname : name.toList with
    | nil => simp [hname] at hlist
    | cons c cs =>
      rw [hname, List.flatMap_cons] at hlist
      rcases List.append_eq_singleton_iff.mp hlist with ⟨hnil, -⟩ | ⟨hc, hcs⟩
      · exact absurd hnil (upperChar_ne_nil c)
      · have hcs : cs = [] := by
          cases cs with
          | nil => rfl
          | cons d ds => exact absurd (List.flatMap_eq_nil_iff.mp hcs d (by simp)) (upperChar_ne_nil d)
        apply String.toList_inj.mp
        rw [hname, hcs, eq_symbol_of_upperChar hc, Symbol.name, String.toList_singleton]
  · rintro rfl
    cases s <;> decide

namespace Catalog

variable {c : Catalog}

/-! ### Lists of arguments -/

theorem name_of_find?_symbol {s : Symbol} {op : Operation} (h : c.find? s.name = some op) :
    op.name = s.name := by
  have hkey := (mem_ops_of_find? h).2
  rwa [upper_eq_symbol_iff.mpr rfl, Operation.key, upper_eq_symbol_iff] at hkey

/-- What is combined under the comma is a comma node over the arguments. -/
theorem eq_app_of_combine_comma {args : List Formula} {l : Formula}
    (h : c.combine Symbol.comma.name args = .ok l) :
    ∃ op, op.name = Symbol.comma.name ∧ l = .app op (unpack args) := by
  simp only [combine, if_neg (symbol_name_ne .comma), build] at h
  split at h
  next op hop =>
    exact ⟨op, name_of_find?_symbol hop, (Formula.make_eq_ok_iff.mp h).2⟩
  next => cases h

theorem unpack_list {op : Operation} (h : op.name = Symbol.comma.name) (args : List Formula) :
    unpack [.app op args] = args := if_pos h

/-- The arguments matter only as far as what is inside a sole comma node. -/
theorem combine_congr {args args' : List Formula} (h : unpack args = unpack args') (name : String) :
    c.combine name args = c.combine name args' := by
  simp only [combine, h]

/-- Arguments that a comma combines into a list are the arguments inside a comma node.  Every operation, and
every span without a name, makes the same node of this list as of the arguments, or refuses both for the
same reason. -/
theorem combine_listed {args : List Formula} {l : Formula}
    (h : c.combine Symbol.comma.name args = .ok l) :
    (∃ op, op.name = Symbol.comma.name ∧ l = .app op (unpack args)) ∧
      ∀ name, c.combine name [l] = c.combine name args := by
  obtain ⟨op, hop, rfl⟩ := eq_app_of_combine_comma h
  exact ⟨⟨op, hop, rfl⟩, combine_congr (unpack_list hop _)⟩

/-- A list of a constant and a blank. -/
def gappedPair : Formula := .app .comma [.const 1, .blank]

theorem listed_arguments_same :
    (standard.combine Symbol.comma.name [gappedPair, .const 2] =
        .ok (.app .comma [gappedPair, .const 2]) ∧
      standard.combine "mean" [.app .comma [gappedPair, .const 2]] =
        standard.combine "mean" [gappedPair, .const 2] ∧
      standard.combine "SUM" [.app .comma [gappedPair, .const 2]] = .error (.unknown "SUM")) ∧
    standard.combine Symbol.comma.name [.ref "A0"] = .ok (.app .comma [.ref "A0"]) ∧
      standard.combine "" [.app .comma [.ref "A0"]] = .ok (.ref "A0") := by
  have hpair : standard.combine Symbol.comma.name [gappedPair, .const 2] =
      .ok (.app .comma [gappedPair, .const 2]) := rfl
  have hsole : standard.combine Symbol.comma.name [.ref "A0"] = .ok (.app .comma [.ref "A0"]) := rfl
  exact ⟨⟨hpair, (combine_listed hpair).2 "mean", ((combine_listed hpair).2 "SUM").trans rfl⟩,
    hsole, ((combine_listed hsole).2 "").trans rfl⟩

end Catalog

end FormulaGrid
