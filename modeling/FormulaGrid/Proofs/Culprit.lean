import FormulaGrid.Proofs.Spelling

/-!
# Proofs.Culprit — where a text fails to have tokens

A lexical error points at a character of the text, and what comes before it has tokens.  A character that
starts no token and a parenthesis that closes nothing are wrong whatever comes after them; an opening
parenthesis is wrong because nothing after it closes it (`Token.culprit_of_lex`).
-/

namespace FormulaGrid

/-- The bytes before the culprit. -/
def LexError.position : LexError → Nat
  | unbalanced p => p
  | unexpected _ p => p

theorem utf8ByteSize_ofList (cs : List Char) : (String.ofList cs).utf8ByteSize = byteCount cs := by
  induction cs with
  | nil => rfl
  | cons c cs ih => simp [String.ofList_cons, ih]

namespace Token

/-! ### Why no token is read -/

theorem nextSpan_eq_error {position : Nat} {name cs : List Char} {e : LexError}
    (h : nextSpan position name cs = .error e) :
    e = .unbalanced position ∧ splitSpan 0 cs = none := by
  unfold nextSpan at h
  split at h
  next => cases h
  next hnone =>
    cases h
    exact ⟨rfl, hnone⟩

/-- Either the first character starts no token, whatever comes after it, or there is a parenthesis, right
after a name or at the front, that is not closed. -/
theorem next_eq_error {position : Nat} {c : Char} {cs : List Char} {e : LexError}
    (h : next position c cs = .error e) :
    ((∀ more, next position c more = .error e) ∧
        (e = .unexpected c position ∨ c = ')' ∧ e = .unbalanced position)) ∨
      ∃ name rest, c :: cs = name ++ '(' :: rest ∧ (name = [] ∨ IsName name) ∧
        e = .unbalanced (position + byteCount name) ∧ splitSpan 0 rest = none := by
  by_cases hdigit : c.isDigit = true
  · simp only [next, hdigit, if_true] at h
    cases h
  by_cases halpha : c.isAlpha = true
  · have hname : IsName (c :: cs.takeWhile isNameChar) :=
      ⟨halpha, List.all_eq_true.mp List.all_takeWhile⟩
    simp only [next, hdigit, halpha, if_true, if_false, Bool.false_eq_true] at h
    split at h
    next rest hrest =>
      obtain ⟨rfl, hnone⟩ := nextSpan_eq_error h
      refine .inr ⟨_, rest, ?_, .inr hname, rfl, hnone⟩
      rw [← hrest, List.cons_append, List.takeWhile_append_dropWhile]
    next => cases h
  by_cases hopen : c = '('
  · subst hopen
    have hspan : nextSpan position [] cs = .error e := h
    obtain ⟨rfl, hnone⟩ := nextSpan_eq_error hspan
    exact .inr ⟨[], cs, rfl, .inl rfl, rfl, hnone⟩
  by_cases hclose : c = ')'
  · have hall : ∀ more, next position c more = .error (.unbalanced position) := by
      intro more
      rw [next, if_neg hdigit, if_neg halpha, if_neg hopen, if_pos hclose]
    obtain rfl := Except.error.inj ((hall cs).symm.trans h)
    exact .inl ⟨hall, .inr ⟨hclose, rfl⟩⟩
  -- what is left looks at the first character only
  cases hsymbol : Symbol.ofChar? c with
  | some s =>
    have hok : next position c cs = .ok (.op s, cs) := by
      rw [next, if_neg hdigit, if_neg halpha, if_neg hopen, if_neg hclose, hsymbol]
    cases hok.symm.trans h
  | none =>
    have hall : ∀ more, next position c more = .error (.unexpected c position) := by
      intro more
      rw [next, if_neg hdigit, if_neg halpha, if_neg hopen, if_neg hclose, hsymbol]
    obtain rfl := Except.error.inj ((hall cs).symm.trans h)
    exact .inl ⟨hall, .inl rfl⟩

/-! ### Where a text goes wrong -/

/-- Every text that starts with these characters fails in the same way. -/
def Final (position : Nat) (cs : List Char) (e : LexError) : Prop :=
  ∀ more, lexFrom position (cs ++ more) = .error e

theorem Final.blank {position : Nat} {c : Char} {cs : List Char} {e : LexError}
    (hc : isBlank c = true) (h : Final (position + c.utf8Size) cs e) :
    Final position (c :: cs) e := by
  intro more
  rw [List.cons_append, lexFrom_blank hc]
  exact h more

theorem Final.token {position : Nat} {t : Token} {cs rest : List Char} {e : LexError}
    (ht : t.Valid) (hstop : t.Stops rest) (hhead : cs.head? = rest.head?) (hne : cs ≠ [])
    (h : Final (position + byteCount t.text) cs e) : Final position (t.text ++ cs) e := by
  intro more
  have hmore : t.Stops (cs ++ more) := by
    obtain ⟨c, cs', rfl⟩ := List.exists_cons_of_ne_nil hne
    exact hstop.of_head hhead
  rw [List.append_assoc, lexFrom_text ht hmore, h more]
  rfl

/-- A text without tokens has tokens up to some character, and then either nothing that comes after the
character helps or the character opens a parenthesis that is not closed. -/
theorem exists_culprit {position : Nat} {cs : List Char} {e : LexError}
    (h : lexFrom position cs = .error e) :
    ∃ as c bs, cs = as ++ c :: bs ∧ (∃ ts, Spells as ts) ∧
      e.position = position + byteCount as ∧
      (Final position (as ++ [c]) e ∧
          (e = .unexpected c e.position ∨ c = ')' ∧ e = .unbalanced e.position) ∨
        c = '(' ∧ e = .unbalanced e.position ∧ splitSpan 0 bs = none) := by
  fun_induction lexFrom position cs with
  | case1 => cases h
  | case2 position c cs hc ih =>
    obtain ⟨as, d, bs, rfl, ⟨ts, has⟩, hplace, hcause⟩ := ih h
    refine ⟨c :: as, d, bs, rfl, ⟨ts, .blank hc has⟩, by rw [hplace, byteCount_cons]; omega, ?_⟩
    exact hcause.imp_left fun hfinal => ⟨hfinal.1.blank hc, hfinal.2⟩
  | case3 position c cs _ t rest hnext ih =>
    obtain ⟨as, d, bs, rfl, ⟨ts, has⟩, hplace, hcause⟩ := ih (Except.map_eq_error_iff.mp h)
    have ht := valid_of_next hnext
    have hstop := stops_of_next hnext
    have hleft : t.Stops as := by
      cases as with
      | nil => exact stops_nil t
      | cons => exact hstop.of_head rfl
    refine ⟨t.text ++ as, d, bs, ?_, ⟨t :: ts, .token ht hleft has⟩, ?_, ?_⟩
    · rw [List.append_assoc, text_append_of_next hnext]
    · rw [hplace, byteCount_append]
      omega
    · refine hcause.imp_left fun hfinal => ⟨?_, hfinal.2⟩
      rw [List.append_assoc]
      exact hfinal.1.token ht hstop (by cases as <;> rfl) (by simp)
  | case4 position c cs hc e' hnext =>
    cases h
    rcases next_eq_error hnext with ⟨hall, hcause⟩ | ⟨name, rest, hcs, hname, rfl, hnone⟩
    · have hfinal : Final position [c] e := by
        intro more
        rw [List.singleton_append, lexFrom, if_neg hc]
        split
        next heq => rw [hall more] at heq; cases heq
        next heq => rw [hall more] at heq; cases heq; rfl
      refine ⟨[], c, cs, rfl, ⟨[], .nil⟩, ?_, .inl ⟨hfinal, ?_⟩⟩
      · rcases hcause with rfl | ⟨-, rfl⟩ <;> rfl
      · rcases hcause with rfl | ⟨hclose, rfl⟩
        · exact .inl rfl
        · exact .inr ⟨hclose, rfl⟩
    · refine ⟨name, '(', rest, hcs, ?_, rfl, .inr ⟨rfl, rfl, hnone⟩⟩
      rcases hname with rfl | hname
      · exact ⟨[], .nil⟩
      · have hvalid : Valid (.operand (.ref (String.ofList name))) := by
          simpa [Valid] using hname
        have hspells := Spells.token hvalid (stops_nil _) .nil
        exact ⟨_, by simpa [Token.text, Operand.text] using hspells⟩

/-- A text that has no tokens fails at a character before which there are tokens.  An unexpected character
is that character, and a parenthesis without a partner is a closing one; then every text that goes on
differently after the character fails with the same error.  Or the parenthesis is an opening one, and no
beginning of what comes after it closes more parentheses than it opens. -/
theorem culprit_of_lex {text : String} {e : LexError} (h : lex text = .error e) :
    ∃ (pre : String) (c : Char) (post : String),
      text = pre ++ c.toString ++ post ∧ pre.utf8ByteSize = e.position ∧
      (∃ ts, lex pre = .ok ts) ∧
      match e with
      | .unexpected d _ => d = c ∧ ∀ rest, lex (pre ++ c.toString ++ rest) = .error e
      | .unbalanced _ =>
        (c = ')' ∧ ∀ rest, lex (pre ++ c.toString ++ rest) = .error e) ∨
          c = '(' ∧ ∀ p, p <+: post.toList → p.count ')' ≤ p.count '(' := by
  obtain ⟨as, c, bs, htext, ⟨ts, has⟩, hplace, hcause⟩ := exists_culprit h
  have hfinal : Final 0 (as ++ [c]) e →
      ∀ rest, lex (String.ofList as ++ c.toString ++ rest) = .error e := by
    intro hfinal rest
    simpa [lex] using hfinal rest.toList
  refine ⟨String.ofList as, c, String.ofList bs, ?_, ?_, ⟨ts, lex_ofList_iff.mpr has⟩, ?_⟩
  · apply String.toList_inj.mp
    simpa using htext
  · rw [utf8ByteSize_ofList, hplace, Nat.zero_add]
  · cases e with
    | unexpected d p =>
      rcases hcause with ⟨hf, heq | ⟨-, heq⟩⟩ | ⟨-, heq, -⟩
      · exact ⟨(LexError.unexpected.inj heq).1, hfinal hf⟩
      · cases heq
      · cases heq
    | unbalanced p =>
      rcases hcause with ⟨hf, heq | ⟨hclose, -⟩⟩ | ⟨hopen, -, hnone⟩
      · cases heq
      · exact .inl ⟨hclose, hfinal hf⟩
      · refine .inr ⟨hopen, ?_⟩
        simpa using splitSpan_eq_none_iff.mp hnone

theorem outOfPlace_culprits :
    (lex "1\u3000A1((2)" = .error (.unbalanced 6) ∧
      ∃ (pre : String) (c : Char) (post : String),
        "1\u3000A1((2)" = pre ++ c.toString ++ post ∧ pre.utf8ByteSize = 6 ∧
        (∃ ts, lex pre = .ok ts) ∧
        ((c = ')' ∧ ∀ rest, lex (pre ++ c.toString ++ rest) = .error (.unbalanced 6)) ∨
          c = '(' ∧ ∀ p, p <+: post.toList → p.count ')' ≤ p.count '(')) ∧
    lex "F(é) A_1% (" = .error (.unexpected '%' 9) ∧
      ∃ (pre : String) (c : Char) (post : String),
        "F(é) A_1% (" = pre ++ c.toString ++ post ∧ pre.utf8ByteSize = 9 ∧
        (∃ ts, lex pre = .ok ts) ∧ '%' = c ∧
        ∀ rest, lex (pre ++ c.toString ++ rest) = .error (.unexpected '%' 9) := by
  have hopen : lex "1\u3000A1((2)" = .error (.unbalanced 6) := by with_unfolding_all rfl
  have hpercent : lex "F(é) A_1% (" = .error (.unexpected '%' 9) := by with_unfolding_all rfl
  exact ⟨⟨hopen, culprit_of_lex hopen⟩, hpercent, culprit_of_lex hpercent⟩

end Token

end FormulaGrid
