import FormulaGrid.Cell.Name

/-!
# Proofs.Naming — names and cells are one to one

The texts that are read as a cell are a capital letter and a row number in decimal form, without a leading
zero and of 32 bits at most (`parse_eq_ok_iff_spelled`).  A text is read as a cell exactly if it is the name
of that cell (`parse_eq_ok_iff_name`), so no two cells have the same name and every cell with a name is found
again under it (`naming_bijective`).
-/

namespace FormulaGrid

namespace Decimal

/-- Digits as a number is written: at least one of them, and a zero in front only if it is alone. -/
structure Canonical (ds : List Char) : Prop where
  ne_nil : ds ≠ []
  digits : ∀ c ∈ ds, '0' ≤ c ∧ c ≤ '9'
  eq_of_head_zero : ds.head? = some '0' → ds = ['0']

theorem isDigit_iff {c : Char} : c.isDigit = true ↔ '0' ≤ c ∧ c ≤ '9' := by
  rw [Char.isDigit, Bool.and_eq_true, decide_eq_true_eq, decide_eq_true_eq]
  exact Iff.rfl

theorem canonical_ofNat (n : Nat) : Canonical (ofNat n) where
  ne_nil := ofNat_ne_nil n
  digits c hc := isDigit_iff.mp (isDigit_of_mem_ofNat hc)
  eq_of_head_zero h := by
    by_cases hn : n = 0
    · rw [hn]
      rfl
    · exact absurd h (head?_ofNat_ne_zero (Nat.pos_of_ne_zero hn))

/-- Digits in the form of a number are the written form of their value. -/
theorem Canonical.ofNat_toNat {ds : List Char} (h : Canonical ds) : ofNat (toNat ds) = ds := by
  cases ds with
  | nil => exact absurd rfl h.ne_nil
  | cons c ds =>
    refine Decimal.ofNat_toNat (fun x hx => isDigit_iff.mpr (h.digits x hx)) fun hc => ?_
    have hsole := h.eq_of_head_zero (by rw [hc]; rfl)
    exact (List.cons.inj hsole).2

end Decimal

namespace Cell

theorem parse_eq_ok_iff_label {s : String} {a : Cell} :
    parse s = .ok a ↔ a.column < letters ∧ s = a.label :=
  ⟨parse_eq_ok, fun ⟨h, hs⟩ => hs ▸ parse_label h⟩

theorem name_eq_ok_iff_label {s : String} {a : Cell} :
    a.name = .ok s ↔ a.column < letters ∧ s = a.label := by
  by_cases h : a.column < letters
  · simp [name, h, eq_comm]
  · simp [name, h]

/-- A text is read as a cell exactly if it is the name of that cell. -/
theorem parse_eq_ok_iff_name {s : String} {a : Cell} : parse s = .ok a ↔ a.name = .ok s :=
  parse_eq_ok_iff_label.trans name_eq_ok_iff_label.symm

theorem letters_toNat : letters.toNat = 26 := rfl

/-- The capital letters are the letters of columns. -/
theorem eq_letter_iff {c : Char} {column : UInt16} :
    column < letters ∧ c = letter column ↔
      'A' ≤ c ∧ c ≤ 'Z' ∧ c.toNat = 'A'.toNat + column.toNat := by
  have hA : 'A' ≤ c ↔ 65 ≤ c.toNat := Iff.rfl
  have hZ : c ≤ 'Z' ↔ c.toNat ≤ 90 := Iff.rfl
  have hnat : 'A'.toNat = 65 := rfl
  rw [hA, hZ, hnat, UInt16.lt_iff_toNat_lt, letters_toNat]
  constructor
  · rintro ⟨h, rfl⟩
    obtain ⟨ht, -⟩ := letter_isUpper (UInt16.lt_iff_toNat_lt.mpr h)
    omega
  · rintro ⟨h1, h2, ht⟩
    refine ⟨by omega, ?_⟩
    rw [letter, ← ht, Char.ofNat_toNat]

theorem exists_column {c : Char} (hA : 'A' ≤ c) (hZ : c ≤ 'Z') :
    ∃ column : UInt16, c.toNat = 'A'.toNat + column.toNat := by
  have hA' : 65 ≤ c.toNat := hA
  have hZ' : c.toNat ≤ 90 := hZ
  have hlt : c.toNat - 65 < UInt16.size :=
    Nat.lt_of_le_of_lt (show c.toNat - 65 ≤ 25 by omega) (by decide)
  refine ⟨UInt16.ofNat (c.toNat - 65), ?_⟩
  rw [UInt16.toNat_ofNat_of_lt' hlt]
  exact (Nat.add_sub_cancel' hA').symm

/-- The spelling of the texts that are read as a cell. -/
theorem parse_eq_ok_iff_spelled {s : String} {a : Cell} :
    parse s = .ok a ↔ ∃ c ds, s = String.ofList (c :: ds) ∧
      ('A' ≤ c ∧ c ≤ 'Z' ∧ c.toNat = 'A'.toNat + a.column.toNat) ∧
      Decimal.Canonical ds ∧ Nat.ofDigitChars 10 ds 0 = a.row.toNat := by
  rw [parse_eq_ok_iff_label]
  constructor
  · rintro ⟨h, rfl⟩
    exact ⟨_, _, rfl, eq_letter_iff.mp ⟨h, rfl⟩, Decimal.canonical_ofNat _, Decimal.toNat_ofNat _⟩
  · rintro ⟨c, ds, rfl, hc, hds, hrow⟩
    obtain ⟨h, rfl⟩ := eq_letter_iff.mpr hc
    refine ⟨h, ?_⟩
    rw [label, ← hrow]
    exact congrArg (fun digits => String.ofList (letter a.column :: digits)) hds.ofNat_toNat.symm

/-- Reading a cell and naming it are inverse to each other: a text is read as a cell exactly if it is the
name of that cell, every cell in the first 26 columns is found under its name, and different cells have
different names.  What is read are a capital letter and the decimal form of a 32-bit number, and nothing
else. -/
theorem naming_bijective :
    (∀ s a, parse s = .ok a ↔ a.name = .ok s) ∧
    (∀ a : Cell, a.column.toNat < 26 ↔ ∃ s, a.name = .ok s ∧ parse s = .ok a) ∧
    (∀ a b : Cell, ∀ s, a.name = .ok s → b.name = .ok s → a = b) ∧
    ∀ s, (∃ a, parse s = .ok a) ↔ ∃ c ds, s = String.ofList (c :: ds) ∧ 'A' ≤ c ∧ c ≤ 'Z' ∧
      Decimal.Canonical ds ∧ Nat.ofDigitChars 10 ds 0 < UInt32.size := by
  refine ⟨fun s a => parse_eq_ok_iff_name, fun a => ?_, fun a b s ha hb => ?_, fun s => ?_⟩
  · have hlt : a.column.toNat < 26 ↔ a.column < letters := Iff.rfl
    simp [parse_eq_ok_iff_name, name_eq_ok_iff_label, hlt]
  · rw [← parse_eq_ok_iff_name] at ha hb
    exact Except.ok.inj (ha.symm.trans hb)
  · simp only [parse_eq_ok_iff_spelled]
    constructor
    · rintro ⟨a, c, ds, hs, ⟨hA, hZ, -⟩, hds, hrow⟩
      exact ⟨c, ds, hs, hA, hZ, hds, hrow ▸ a.row.toNat_lt_size⟩
    · rintro ⟨c, ds, hs, hA, hZ, hds, hlt⟩
      obtain ⟨column, hcolumn⟩ := exists_column hA hZ
      have hrow : (UInt32.ofNat (Nat.ofDigitChars 10 ds 0)).toNat = Nat.ofDigitChars 10 ds 0 :=
        UInt32.toNat_ofNat_of_lt' hlt
      exact ⟨⟨UInt32.ofNat _, column⟩, c, ds, hs, ⟨hA, hZ, hcolumn⟩, hds, hrow.symm⟩

theorem largest_row_named :
    (⟨4294967295, 2⟩ : Cell).name = .ok "C4294967295" ∧
      parse "C4294967295" = .ok ⟨4294967295, 2⟩ ∧ ¬∃ a, parse "C4294967296" = .ok a := by
  obtain ⟨hparse, -, -, hspelled⟩ := naming_bijective
  have hname : (⟨4294967295, 2⟩ : Cell).name = .ok "C4294967295" := rfl
  refine ⟨hname, (hparse _ _).mpr hname, ?_⟩
  rw [hspelled]
  rintro ⟨c, ds, hs, -, -, -, hlt⟩
  obtain ⟨-, rfl⟩ : 'C' = c ∧ "4294967296".toList = ds := by
    simpa using congrArg String.toList hs
  exact absurd hlt (by decide)

end Cell

end FormulaGrid
