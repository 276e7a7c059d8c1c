/-!
# Text.Blank — the characters that only separate

The twenty-five characters of Unicode's `White_Space` property.  A text of blanks alone holds no
token.
-/

namespace FormulaGrid

/-- A character of Unicode's `White_Space` property. -/
def isBlank (c : Char) : Bool :=
  let n := c.toNat
  (0x09 ≤ n && n ≤ 0x0D) || n == 0x20 || n == 0x85 || n == 0xA0 || n == 0x1680 ||
  (0x2000 ≤ n && n ≤ 0x200A) || n == 0x2028 || n == 0x2029 || n == 0x202F || n == 0x205F ||
  n == 0x3000

/-- ASCII holds six blanks. -/
theorem isBlank_ascii_iff {c : Char} (h : c.toNat < 0x80) :
    isBlank c = true ↔ (0x09 ≤ c.toNat ∧ c.toNat ≤ 0x0D) ∨ c.toNat = 0x20 := by
  simp only [isBlank, Bool.or_eq_true, Bool.and_eq_true, decide_eq_true_eq, beq_iff_eq]
  omega

end FormulaGrid
