import FormulaGrid.Proofs.Lexing

/-!
# Proofs.Balance — parentheses that match

A text is balanced when its parentheses are as many to the left as to the right and none closes before
it is opened.  The inside of a span is the balanced text up to the first parenthesis that closes without
being opened (`splitSpan_eq_some_iff`), and to be balanced is all that the inside has to be
(`level_iff_balanced`).
-/

namespace FormulaGrid

/-- There are as many closing parentheses as opening ones, and no more of them in any beginning. -/
def Balanced (cs : List Char) : Prop :=
  cs.count '(' = cs.count ')' ∧ ∀ p, p <+: cs → p.count ')' ≤ p.count '('

/-- After `depth` open parentheses the text closes all of them and never more. -/
def Closes (depth : Nat) (cs : List Char) : Prop :=
  cs.count ')' = depth + cs.count '(' ∧ ∀ p, p <+: cs → p.count ')' ≤ depth + p.count '('

theorem closes_zero_iff {cs : List Char} : Closes 0 cs ↔ Balanced cs := by
  simp [Closes, Balanced, eq_comm]

@[simp] theorem closes_nil_iff {depth : Nat} : Closes depth [] ↔ depth = 0 := by
  simp [Closes, eq_comm]

theorem forall_prefix_cons_iff {α : Type} {P : List α → Prop} {a : α} {as : List α} :
    (∀ p, p <+: a :: as → P p) ↔ P [] ∧ ∀ p, p <+: as → P (a :: p) := by
  simp only [List.prefix_cons_iff]
  constructor
  · exact fun h => ⟨h [] (.inl rfl), fun p hp => h (a :: p) (.inr ⟨p, rfl, hp⟩)⟩
  · rintro ⟨hnil, hcons⟩ p (rfl | ⟨q, rfl, hq⟩)
    · exact hnil
    · exact hcons q hq

theorem closes_open_iff {depth : Nat} {cs : List Char} :
    Closes depth ('(' :: cs) ↔ Closes (depth + 1) cs := by
  have hopen : ∀ p : List Char, ('(' :: p).count '(' = p.count '(' + 1 := by simp
  have hclose : ∀ p : List Char, ('(' :: p).count ')' = p.count ')' := by simp
  simp only [Closes, forall_prefix_cons_iff, hopen, hclose]
  constructor
  · rintro ⟨hall, -, hpre⟩
    refine ⟨by omega, fun p hp => ?_⟩
    have := hpre p hp
    omega
  · rintro ⟨hall, hpre⟩
    refine ⟨by omega, by simp, fun p hp => ?_⟩
    have := hpre p hp
    omega

theorem closes_close_iff {depth : Nat} {cs : List Char} :
    Closes depth (')' :: cs) ↔ ∃ outer, depth = outer + 1 ∧ Closes outer cs := by
  have hopen : ∀ p : List Char, (')' :: p).count '(' = p.count '(' := by simp
  have hclose : ∀ p : List Char, (')' :: p).count ')' = p.count ')' + 1 := by simp
  simp only [Closes, forall_prefix_cons_iff, hopen, hclose]
  constructor
  · rintro ⟨hall, -, hpre⟩
    -- the first parenthesis alone is a beginning, so one was open before it
    have hfirst := hpre [] List.nil_prefix
    simp only [List.count_nil] at hfirst
    refine ⟨depth - 1, by omega, by omega, fun p hp => ?_⟩
    have := hpre p hp
    omega
  · rintro ⟨outer, rfl, hall, hpre⟩
    refine ⟨by omega, by simp, fun p hp => ?_⟩
    have := hpre p hp
    omega

theorem closes_cons_iff {depth : Nat} {c : Char} {cs : List Char} (hc : NoParen c) :
    Closes depth (c :: cs) ↔ Closes depth cs := by
  have hopen : ∀ p : List Char, (c :: p).count '(' = p.count '(' :=
    fun _ => List.count_cons_of_ne hc.1
  have hclose : ∀ p : List Char, (c :: p).count ')' = p.count ')' :=
    fun _ => List.count_cons_of_ne hc.2
  simp [Closes, forall_prefix_cons_iff, hopen, hclose]

namespace Token

theorem closes_of_splitSpan {depth : Nat} {cs inside rest : List Char}
    (h : splitSpan depth cs = some (inside, rest)) : Closes depth inside := by
  fun_induction splitSpan depth cs generalizing inside with
  | case1 => cases h
  | case2 cs =>
    cases h
    exact closes_nil_iff.mpr rfl
  | case3 cs depth ih =>
    obtain ⟨⟨inside', rest'⟩, h', e⟩ := Option.map_eq_some_iff.mp h
    cases e
    exact closes_close_iff.mpr ⟨depth, rfl, ih h'⟩
  | case4 depth cs ih =>
    obtain ⟨⟨inside', rest'⟩, h', e⟩ := Option.map_eq_some_iff.mp h
    cases e
    exact closes_open_iff.mpr (ih h')
  | case5 depth c cs hclose hopen ih =>
    obtain ⟨⟨inside', rest'⟩, h', e⟩ := Option.map_eq_some_iff.mp h
    cases e
    exact (closes_cons_iff ⟨hopen, hclose⟩).mpr (ih h')

theorem splitSpan_of_closes {depth : Nat} {inside : List Char} (h : Closes depth inside)
    (rest : List Char) : splitSpan depth (inside ++ ')' :: rest) = some (inside, rest) := by
  induction inside generalizing depth with
  | nil =>
    obtain rfl := closes_nil_iff.mp h
    rfl
  | cons c inside ih =>
    rw [List.cons_append]
    by_cases hopen : c = '('
    · subst hopen
      rw [splitSpan, ih (closes_open_iff.mp h)]
      rfl
    · by_cases hclose : c = ')'
      · subst hclose
        obtain ⟨outer, rfl, houter⟩ := closes_close_iff.mp h
        rw [splitSpan, ih houter]
        rfl
      · have hc : NoParen c := ⟨hopen, hclose⟩
        rw [splitSpan_cons_of_noParen hc, ih ((closes_cons_iff hc).mp h)]
        rfl

theorem splitSpan_eq_some_iff {depth : Nat} {cs inside rest : List Char} :
    splitSpan depth cs = some (inside, rest) ↔
      cs = inside ++ ')' :: rest ∧ Closes depth inside := by
  constructor
  · exact fun h => ⟨(append_of_splitSpan h).symm, closes_of_splitSpan h⟩
  · rintro ⟨rfl, h⟩
    exact splitSpan_of_closes h rest

/-- Some parenthesis stays open exactly if no beginning closes more than is open. -/
theorem splitSpan_eq_none_iff {depth : Nat} {cs : List Char} :
    splitSpan depth cs = none ↔ ∀ p, p <+: cs → p.count ')' ≤ depth + p.count '(' := by
  fun_induction splitSpan depth cs with
  | case1 depth => simp
  | case2 cs =>
    refine iff_of_false (by simp) fun h => ?_
    have hone := h [')'] (by simp)
    simp at hone
  | case3 cs depth ih =>
    have hstep : ∀ p : List Char, (')' :: p).count ')' ≤ depth + 1 + (')' :: p).count '(' ↔
        p.count ')' ≤ depth + p.count '(' := by
      intro p
      simp only [List.count_cons_self, List.count_cons_of_ne (show ')' ≠ '(' by decide)]
      omega
    rw [Option.map_eq_none_iff, ih, forall_prefix_cons_iff, and_iff_right (by simp)]
    simp only [hstep]
  | case4 depth cs ih =>
    have hstep : ∀ p : List Char, ('(' :: p).count ')' ≤ depth + ('(' :: p).count '(' ↔
        p.count ')' ≤ depth + 1 + p.count '(' := by
      intro p
      simp only [List.count_cons_self, List.count_cons_of_ne (show '(' ≠ ')' by decide)]
      omega
    rw [Option.map_eq_none_iff, ih, forall_prefix_cons_iff, and_iff_right (by simp)]
    simp only [hstep]
  | case5 depth c cs hclose hopen ih =>
    rw [Option.map_eq_none_iff, ih, forall_prefix_cons_iff]
    simp [List.count_cons_of_ne hclose, List.count_cons_of_ne hopen]

/-- A text is level exactly if it is balanced. -/
theorem level_iff_balanced {cs : List Char} : Level cs ↔ Balanced cs := by
  rw [← closes_zero_iff]
  constructor
  · exact fun h => (splitSpan_eq_some_iff.mp (h.splitSpan_close [])).2
  · exact fun h => level_of_splitSpan (splitSpan_of_closes h [])

end Token

end FormulaGrid
