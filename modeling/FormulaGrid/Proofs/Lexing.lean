import FormulaGrid.Proofs.Success
import FormulaGrid.Token.Lexer

/-!
# Proofs.Lexing — tokens and their texts

A token that a text starts with is read back from its own text (`next_text`), provided the text after
it cannot go on with the token (`Token.Stops`).  So a text that is put together from tokens and blanks
has these tokens (`Lexes.token`, `Lexes.blank`), and every token of a text is well-formed
(`valid_of_lex`).
-/

namespace FormulaGrid

/-! ### Classes of characters -/

theorem toNat_of_isDigit {c : Char} (h : c.isDigit = true) : 48 ≤ c.toNat ∧ c.toNat ≤ 57 :=
  Char.isDigit_iff_toNat.mp h

theorem toNat_of_isAlpha {c : Char} (h : c.isAlpha = true) : 65 ≤ c.toNat ∧ c.toNat ≤ 122 := by
  have h' : (c.isUpper || c.isLower) = true := h
  rcases Bool.or_eq_true _ _ ▸ h' with hu | hl
  · obtain ⟨h1, h2⟩ : 65 ≤ c.toNat ∧ c.toNat ≤ 90 := of_decide_eq_true hu
    omega
  · have hl' : (decide (c.val ≥ 'a'.val) && decide (c.val ≤ 'z'.val)) = true := hl
    rw [Bool.and_eq_true] at hl'
    have h1 : 97 ≤ c.toNat := of_decide_eq_true hl'.1
    have h2 : c.toNat ≤ 122 := of_decide_eq_true hl'.2
    omega

theorem isDigit_of_isAlpha {c : Char} (h : c.isAlpha = true) : c.isDigit = false := by
  rw [Bool.eq_false_iff]
  intro hd
  have h1 := toNat_of_isAlpha h
  have h2 := toNat_of_isDigit hd
  omega

theorem isBlank_eq_false {c : Char} (h1 : 0x21 ≤ c.toNat) (h2 : c.toNat < 0x7F) :
    isBlank c = false := by
  rw [Bool.eq_false_iff]
  intro hb
  have h := (isBlank_ascii_iff (by omega)).mp hb
  omega

/-- A character that is neither of the two parentheses. -/
def NoParen (c : Char) : Prop := c ≠ '(' ∧ c ≠ ')'

theorem noParen_of_toNat {c : Char} (h : c.toNat ≠ 40 ∧ c.toNat ≠ 41) : NoParen c := by
  constructor <;> rintro rfl <;> simp at h

theorem noParen_of_isDigit {c : Char} (h : c.isDigit = true) : NoParen c := by
  have := toNat_of_isDigit h
  exact noParen_of_toNat (by omega)

theorem noParen_of_isNameChar {c : Char} (h : isNameChar c = true) : NoParen c := by
  have h' : c.isAlpha = true ∨ c.isDigit = true ∨ c = '_' := by
    simpa [isNameChar, Char.isAlphanum, or_assoc] using h
  rcases h' with h | h | rfl
  · have := toNat_of_isAlpha h
    exact noParen_of_toNat (by omega)
  · exact noParen_of_isDigit h
  · exact ⟨by decide, by decide⟩

theorem isNameChar_of_isAlpha {c : Char} (h : c.isAlpha = true) : isNameChar c = true := by
  simp [isNameChar, Char.isAlphanum, h]

/-- A letter and after it letters, digits and underscores. -/
def IsName : List Char → Prop
  | [] => False
  | c :: cs => c.isAlpha = true ∧ ∀ x ∈ cs, isNameChar x = true

/-- A run of digits. -/
def IsDigits (cs : List Char) : Prop := cs ≠ [] ∧ ∀ c ∈ cs, c.isDigit = true

theorem IsName.noParen {cs : List Char} (h : IsName cs) : ∀ c ∈ cs, NoParen c := by
  cases cs with
  | nil => exact absurd h id
  | cons c cs =>
    intro x hx
    rcases List.mem_cons.mp hx with rfl | hx
    · exact noParen_of_isNameChar (isNameChar_of_isAlpha h.1)
    · exact noParen_of_isNameChar (h.2 x hx)

theorem ne_empty_of_isName {name : String} (h : IsName name.toList) : name ≠ "" := by
  rintro rfl
  exact h

namespace Token

/-! ### Texts with matching parentheses -/

/-- The search for a closing parenthesis goes over the text as if it were not there: its parentheses
match. -/
def Level (cs : List Char) : Prop :=
  ∀ depth rest, splitSpan depth (cs ++ rest) =
    (splitSpan depth rest).map fun (inside, after) => (cs ++ inside, after)

theorem level_nil : Level [] := by
  intro depth rest
  cases h : splitSpan depth rest <;> simp [h]

theorem Level.append {as bs : List Char} (ha : Level as) (hb : Level bs) : Level (as ++ bs) := by
  intro depth rest
  rw [List.append_assoc, ha, hb]
  cases h : splitSpan depth rest <;> simp

theorem splitSpan_cons_of_noParen {c : Char} (h : NoParen c) (depth : Nat) (cs : List Char) :
    splitSpan depth (c :: cs) =
      (splitSpan depth cs).map fun (inside, after) => (c :: inside, after) := by
  rw [splitSpan]
  · exact h.2
  · exact h.1

theorem level_of_noParen {cs : List Char} (h : ∀ c ∈ cs, NoParen c) : Level cs := by
  induction cs with
  | nil => exact level_nil
  | cons c cs ih =>
    intro depth rest
    rw [List.cons_append, splitSpan_cons_of_noParen (h c (by simp)),
      ih (fun x hx => h x (by simp [hx])) depth rest]
    cases splitSpan depth rest <;> simp

theorem Level.parens {cs : List Char} (h : Level cs) : Level ('(' :: (cs ++ [')'])) := by
  intro depth rest
  have hclose : splitSpan (depth + 1) (')' :: rest) =
      (splitSpan depth rest).map fun (inside, after) => (')' :: inside, after) := by
    rw [splitSpan]
  rw [List.cons_append, List.append_assoc, List.singleton_append, splitSpan, h, hclose]
  cases splitSpan depth rest <;> simp

/-- A level text up to a closing parenthesis is what a span encloses. -/
theorem Level.splitSpan_close {cs : List Char} (h : Level cs) (rest : List Char) :
    splitSpan 0 (cs ++ ')' :: rest) = some (cs, rest) := by
  rw [h, splitSpan]
  simp

theorem splitSpan_append_of_splitSpan {cs inside rest : List Char} {depth : Nat}
    (h : splitSpan depth cs = some (inside, rest)) (more : Nat) (cs' : List Char) :
    splitSpan (more + depth) (inside ++ cs') =
      (splitSpan more cs').map fun (inside', after) => (inside ++ inside', after) := by
  fun_induction splitSpan depth cs generalizing inside with
  | case1 => cases h
  | case2 cs =>
    cases h
    exact level_nil more cs'
  | case3 cs depth ih =>
    obtain ⟨⟨inside', rest'⟩, h', e⟩ := Option.map_eq_some_iff.mp h
    cases e
    rw [Nat.succ_eq_add_one, ← Nat.add_assoc, List.cons_append, splitSpan, ih h']
    cases splitSpan more cs' <;> simp
  | case4 depth cs ih =>
    obtain ⟨⟨inside', rest'⟩, h', e⟩ := Option.map_eq_some_iff.mp h
    cases e
    rw [List.cons_append, splitSpan, Nat.add_assoc, ih h']
    cases splitSpan more cs' <;> simp
  | case5 depth c cs h1 h2 ih =>
    obtain ⟨⟨inside', rest'⟩, h', e⟩ := Option.map_eq_some_iff.mp h
    cases e
    rw [List.cons_append, splitSpan_cons_of_noParen ⟨h2, h1⟩, ih h']
    cases splitSpan more cs' <;> simp

theorem level_of_splitSpan {cs inside rest : List Char}
    (h : splitSpan 0 cs = some (inside, rest)) : Level inside :=
  fun depth rest' => splitSpan_append_of_splitSpan h depth rest'

/-! ### Reading a token off its own text -/

/-- A token as it is read from a text. -/
def Valid : Token → Prop
  | operand (.num digits) => IsDigits digits.toList
  | operand (.ref name) => IsName name.toList
  | op _ => True
  | span name contents => (name = "" ∨ IsName name.toList) ∧ Level contents.toList

/-- The text does not go on with the token. -/
def Stops (rest : List Char) : Token → Prop
  | operand (.num _) => ∀ c ∈ rest.head?, c.isDigit = false
  | operand (.ref _) => ∀ c ∈ rest.head?, isNameChar c = false ∧ c ≠ '('
  | _ => True

theorem takeWhile_append_stop {p : Char → Bool} {cs rest : List Char} (hcs : ∀ c ∈ cs, p c = true)
    (hrest : ∀ c ∈ rest.head?, p c = false) :
    (cs ++ rest).takeWhile p = cs ∧ (cs ++ rest).dropWhile p = rest := by
  rw [List.takeWhile_append_of_pos hcs, List.dropWhile_append_of_pos hcs]
  cases rest with
  | nil => simp
  | cons c rest =>
    have hc : p c = false := hrest c (by simp)
    simp [hc]

theorem next_num {digits : String} (h : IsDigits digits.toList) {rest : List Char}
    (hrest : ∀ c ∈ rest.head?, c.isDigit = false) (position : Nat) :
    ∃ c cs, digits.toList ++ rest = c :: cs ∧ isBlank c = false ∧
      next position c cs = .ok (.operand (.num digits), rest) := by
  cases hd : digits.toList with
  | nil => exact absurd hd h.1
  | cons c ds =>
    rw [hd] at h
    have hc : c.isDigit = true := h.2 c (by simp)
    have hds : ∀ x ∈ ds, x.isDigit = true := fun x hx => h.2 x (by simp [hx])
    obtain ⟨htake, hdrop⟩ := takeWhile_append_stop hds hrest
    have hrange := toNat_of_isDigit hc
    refine ⟨c, ds ++ rest, rfl, isBlank_eq_false (by omega) (by omega), ?_⟩
    simp only [next, hc, if_true, htake, hdrop, ← hd, String.ofList_toList]

theorem next_ref {name : String} (h : IsName name.toList) {rest : List Char}
    (hrest : ∀ c ∈ rest.head?, isNameChar c = false ∧ c ≠ '(') (position : Nat) :
    ∃ c cs, name.toList ++ rest = c :: cs ∧ isBlank c = false ∧
      next position c cs = .ok (.operand (.ref name), rest) := by
  cases hn : name.toList with
  | nil => rw [hn] at h; exact absurd h id
  | cons c cs =>
    rw [hn] at h
    obtain ⟨hc, hcs⟩ := h
    obtain ⟨htake, hdrop⟩ := takeWhile_append_stop hcs fun x hx => (hrest x hx).1
    have hrange := toNat_of_isAlpha hc
    refine ⟨c, cs ++ rest, rfl, isBlank_eq_false (by omega) (by omega), ?_⟩
    simp only [next, isDigit_of_isAlpha hc, hc, if_true, Bool.false_eq_true, if_false, htake, hdrop,
      ← hn, String.ofList_toList]
    cases rest with
    | nil => rfl
    | cons x rest =>
      have hx : x ≠ '(' := (hrest x (by simp)).2
      split
      next e => exact absurd (List.cons.inj e).1 hx
      next => rfl

theorem nextSpan_level {contents : String} (h : Level contents.toList) (position : Nat)
    (name rest : List Char) : nextSpan position name (contents.toList ++ ')' :: rest) =
      .ok (.span (String.ofList name) contents, rest) := by
  simp only [nextSpan, h.splitSpan_close, String.ofList_toList]

theorem next_span {name contents : String} (hname : name = "" ∨ IsName name.toList)
    (h : Level contents.toList) (rest : List Char) (position : Nat) :
    ∃ c cs, (span name contents).text ++ rest = c :: cs ∧ isBlank c = false ∧
      next position c cs = .ok (.span name contents, rest) := by
  have htext : (span name contents).text ++ rest =
      name.toList ++ '(' :: (contents.toList ++ ')' :: rest) := by
    simp [text]
  rw [htext]
  rcases hname with rfl | hname
  · refine ⟨'(', contents.toList ++ ')' :: rest, rfl, by decide, ?_⟩
    have hopen : next position '(' (contents.toList ++ ')' :: rest) =
        nextSpan position [] (contents.toList ++ ')' :: rest) := rfl
    rw [hopen, nextSpan_level h]
  · cases hn : name.toList with
    | nil => rw [hn] at hname; exact absurd hname id
    | cons c cs =>
      rw [hn] at hname
      obtain ⟨hc, hcs⟩ := hname
      have hstop : ∀ x ∈ ('(' :: (contents.toList ++ ')' :: rest)).head?, isNameChar x = false := by
        intro x hx
        obtain rfl : '(' = x := by simpa using hx
        decide
      obtain ⟨htake, hdrop⟩ := takeWhile_append_stop hcs hstop
      have hrange := toNat_of_isAlpha hc
      refine ⟨c, cs ++ '(' :: (contents.toList ++ ')' :: rest), rfl,
        isBlank_eq_false (by omega) (by omega), ?_⟩
      simp only [next, isDigit_of_isAlpha hc, hc, if_true, Bool.false_eq_true, if_false, htake,
        hdrop, nextSpan_level h, ← hn, String.ofList_toList]

/-- A text that starts with a token and does not go on with it is read as the token first. -/
theorem next_text {t : Token} (h : Valid t) {rest : List Char} (hrest : Stops rest t)
    (position : Nat) :
    ∃ c cs, t.text ++ rest = c :: cs ∧ isBlank c = false ∧ next position c cs = .ok (t, rest) := by
  cases t with
  | operand o =>
    cases o with
    | ref name => exact next_ref h hrest position
    | num digits => exact next_num h hrest position
  | op s => exact ⟨s.char, rest, rfl, by cases s <;> decide, by cases s <;> rfl⟩
  | span name contents => exact next_span h.1 h.2 rest position

/-! ### Tokens of a text are well-formed -/

theorem valid_of_nextSpan {position : Nat} {name cs rest : List Char} {t : Token}
    (hname : name = [] ∨ IsName name) (h : nextSpan position name cs = .ok (t, rest)) :
    Valid t := by
  unfold nextSpan at h
  split at h
  next inside rest' e =>
    cases h
    have hlevel : Level (String.ofList inside).toList := by
      rw [String.toList_ofList]
      exact level_of_splitSpan e
    refine ⟨?_, hlevel⟩
    rcases hname with rfl | hname
    · exact .inl rfl
    · exact .inr (by rwa [String.toList_ofList])
  next => cases h

theorem valid_of_next {position : Nat} {c : Char} {cs rest : List Char} {t : Token}
    (h : next position c cs = .ok (t, rest)) : Valid t := by
  have htake (p : Char → Bool) : ∀ x ∈ cs.takeWhile p, p x = true :=
    List.all_eq_true.mp List.all_takeWhile
  unfold next at h
  split at h
  next hc =>
    cases h
    refine ⟨by simp, fun x hx => ?_⟩
    rcases List.mem_cons.mp (String.toList_ofList ▸ hx) with rfl | hx
    · exact hc
    · exact htake _ x hx
  split at h
  next hc =>
    have hname : IsName (c :: cs.takeWhile isNameChar) := ⟨hc, htake _⟩
    dsimp only at h
    split at h
    next => exact valid_of_nextSpan (.inr hname) h
    next =>
      cases h
      simpa [Valid] using hname
  split at h
  next => exact valid_of_nextSpan (.inl rfl) h
  split at h
  next => cases h
  split at h
  next =>
    cases h
    exact trivial
  next => cases h

theorem valid_of_mem_lexFrom {position : Nat} {cs : List Char} {ts : List Token}
    (h : lexFrom position cs = .ok ts) : ∀ t ∈ ts, Valid t := by
  fun_induction lexFrom position cs generalizing ts with
  | case1 => cases h; simp
  | case2 position c cs _ ih => exact ih h
  | case3 position c cs _ u rest e ih =>
    obtain ⟨us, hr, rfl⟩ := Except.map_eq_ok_iff.mp h
    intro t ht
    rcases List.mem_cons.mp ht with rfl | ht
    · exact valid_of_next e
    · exact ih hr t ht
  | case4 => cases h

theorem valid_of_lex {text : String} {ts : List Token} (h : lex text = .ok ts) :
    ∀ t ∈ ts, Valid t := valid_of_mem_lexFrom h

/-! ### Texts put together from tokens -/

theorem lexFrom_blank {c : Char} (hc : isBlank c = true) (position : Nat) (cs : List Char) :
    lexFrom position (c :: cs) = lexFrom (position + c.utf8Size) cs := by
  rw [lexFrom, if_pos hc]

/-- A token that is written at the front of a text is the first one of the text. -/
theorem lexFrom_text {t : Token} (ht : Valid t) {rest : List Char} (hrest : Stops rest t)
    (position : Nat) :
    lexFrom position (t.text ++ rest) =
      (lexFrom (position + byteCount t.text) rest).map (t :: ·) := by
  obtain ⟨c, cs, htext, hblank, hnext⟩ := next_text ht hrest position
  rw [htext, lexFrom, if_neg (by simp [hblank])]
  split
  next u rest' e =>
    rw [hnext] at e
    cases e
    rfl
  next e he =>
    rw [hnext] at he
    cases he

/-- The tokens of a text, wherever the text stands. -/
def Lexes (cs : List Char) (ts : List Token) : Prop := ∀ position, lexFrom position cs = .ok ts

theorem Lexes.nil : Lexes [] [] := fun position => by unfold lexFrom; rfl

theorem Lexes.blank {c : Char} {cs : List Char} {ts : List Token} (hc : isBlank c = true)
    (h : Lexes cs ts) : Lexes (c :: cs) ts := by
  intro position
  rw [lexFrom_blank hc]
  exact h _

theorem Lexes.token {t : Token} {rest : List Char} {ts : List Token} (ht : Valid t)
    (hrest : Stops rest t) (h : Lexes rest ts) : Lexes (t.text ++ rest) (t :: ts) := by
  intro position
  rw [lexFrom_text ht hrest, h]
  rfl

theorem Lexes.lex_eq {cs : List Char} {ts : List Token} (h : Lexes cs ts) :
    lex (String.ofList cs) = .ok ts := by
  rw [lex, String.toList_ofList]
  exact h 0

/-! ### Insides of spans -/

/-- The first text is what a span of the second one encloses. -/
def Inside (contents text : String) : Prop := ∃ name ts, lex text = .ok ts ∧ span name contents ∈ ts

/-- Insides of spans are texts of their own, down to texts without spans. -/
theorem wellFounded_inside : WellFounded Inside :=
  Subrelation.wf (fun ⟨_, _, hts, hm⟩ => length_contents_lt_of_mem_lex hts hm)
    (measure String.length).wf

end Token

end FormulaGrid
