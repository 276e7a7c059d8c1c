/-!
# Text.Decimal — numbers as decimal digits

Numbers are written with no leading zero and a minus sign in front when negative, and read from
digits of any length.  Reading gives back what was written (`toNat_ofNat`), and digits without a
leading zero are the written form of their value (`ofNat_toNat`).
-/

namespace FormulaGrid.Decimal

/-- The decimal digits of a number. -/
def ofNat (n : Nat) : List Char := Nat.toDigits 10 n

/-- The decimal form of an integer. -/
def ofInt : Int → List Char
  | .ofNat n => ofNat n
  | .negSucc n => '-' :: ofNat (n + 1)

/-- The decimal form of a 64-bit integer. -/
def ofInt64 (n : Int64) : List Char := ofInt n.toInt

/-- The value of a run of digits. -/
def toNat (ds : List Char) : Nat := Nat.ofDigitChars 10 ds 0

/-- The value of a run of digits as a 64-bit integer, unless it is too large for one. -/
def toInt64? (ds : List Char) : Option Int64 :=
  if toNat ds < 0x8000000000000000 then some (Int64.ofNat (toNat ds)) else none

/-! ### Digits and their value -/

@[simp] theorem toNat_ofNat (n : Nat) : toNat (ofNat n) = n := Nat.ofDigitChars_ten_toDigits

theorem ofNat_ne_nil (n : Nat) : ofNat n ≠ [] := Nat.toDigits_ne_nil

theorem isDigit_of_mem_ofNat {n : Nat} {c : Char} (h : c ∈ ofNat n) : c.isDigit = true :=
  Nat.isDigit_of_mem_toDigits (by decide) (by decide) h

theorem head?_ofNat_ne_zero {n : Nat} (h : 0 < n) : (ofNat n).head? ≠ some '0' := by
  unfold ofNat
  induction n using Nat.strongRecOn with
  | ind n ih =>
    rw [Nat.toDigits_eq_if (by decide)]
    split
    next hlt =>
      have digits : ∀ m < 10, 0 < m → m.digitChar ≠ '0' := by decide
      simpa using digits n hlt h
    next hge =>
      have := ih (n / 10) (by omega) (by omega)
      cases e : Nat.toDigits 10 (n / 10) with
      | nil => exact absurd e Nat.toDigits_ne_nil
      | cons c cs => simpa [e] using this

/-- A digit is the written form of its value, which is less than ten. -/
theorem digitChar_sub_zero {c : Char} (h : c.isDigit = true) :
    (c.toNat - '0'.toNat).digitChar = c ∧ c.toNat - '0'.toNat < 10 := by
  simp only [Char.isDigit, Bool.and_eq_true, decide_eq_true_eq] at h
  have h0 : 48 ≤ c.toNat := h.1
  have h9 : c.toNat ≤ 57 := h.2
  have hlt : c.toNat - '0'.toNat < 10 := by
    change c.toNat - 48 < 10
    omega
  have digits : ∀ m < 10, m.digitChar = Char.ofNat (48 + m) := by decide
  refine ⟨?_, hlt⟩
  rw [digits _ hlt]
  change Char.ofNat (48 + (c.toNat - 48)) = c
  rw [Nat.add_sub_cancel' h0, Char.ofNat_toNat]

theorem toDigits_ofDigitChars {ds : List Char} (hd : ∀ c ∈ ds, c.isDigit = true) {n : Nat}
    (hn : 0 < n) : Nat.toDigits 10 (Nat.ofDigitChars 10 ds n) = Nat.toDigits 10 n ++ ds := by
  induction ds generalizing n with
  | nil => simp
  | cons c ds ih =>
    obtain ⟨hc, hlt⟩ := digitChar_sub_zero (hd c (.head _))
    rw [Nat.ofDigitChars_cons, ih (fun x hx => hd x (.tail _ hx)) (by omega),
      ← Nat.toDigits_append_toDigits (by decide) hn hlt, Nat.toDigits_of_lt_base hlt, hc,
      List.append_assoc, List.singleton_append]

/-- Digits without a leading zero are the written form of their value. -/
theorem ofNat_toNat {c : Char} {ds : List Char} (hd : ∀ x ∈ c :: ds, x.isDigit = true)
    (hz : c = '0' → ds = []) : ofNat (toNat (c :: ds)) = c :: ds := by
  obtain ⟨hc, hlt⟩ := digitChar_sub_zero (hd c (.head _))
  unfold ofNat toNat
  rw [Nat.ofDigitChars_cons, Nat.mul_zero, Nat.zero_add]
  by_cases h : c = '0'
  · rw [h, hz h]
    rfl
  · have hn : 0 < c.toNat - '0'.toNat := by
      refine Nat.pos_of_ne_zero fun e => h ?_
      rw [e] at hc
      exact hc.symm
    rw [toDigits_ofDigitChars (fun x hx => hd x (.tail _ hx)) hn, Nat.toDigits_of_lt_base hlt, hc,
      List.singleton_append]

end FormulaGrid.Decimal
