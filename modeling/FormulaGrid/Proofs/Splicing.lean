import FormulaGrid.Proofs.Spelling

/-!
# Proofs.Splicing — a span and the text around it

Parentheses with nothing but blanks in them are a span of the text or stand in the inside of one
(`Spells.exists_around`).  What stands in the parentheses of a span may be replaced, and the tokens
before and after the span remain (`Opens.spells`).
-/

namespace FormulaGrid

/-- The text of a pair of parentheses with the text between two others. -/
def around (pre inside post : List Char) : List Char := pre ++ '(' :: (inside ++ ')' :: post)

/-- A text that starts with characters other than `c` goes on up to the first `c` of any splitting. -/
theorem exists_of_append_eq {α : Type} {c : α} {as xs bs ys : List α}
    (h : as ++ xs = bs ++ c :: ys) (hc : c ∉ as) : ∃ bs', bs = as ++ bs' ∧ xs = bs' ++ c :: ys := by
  rcases List.append_eq_append_iff.mp h with ⟨bs', hbs, hxs⟩ | ⟨as', has, hys⟩
  · exact ⟨bs', hbs, hxs⟩
  · cases as' with
    | nil => exact ⟨[], by simpa using has.symm, by simpa using hys.symm⟩
    | cons a as' =>
      obtain ⟨rfl, -⟩ := List.cons.inj hys
      exact absurd (by simp [has]) hc

/-! ### Blanks between parentheses -/

theorem closes_append_left {cs : List Char} (h : ∀ c ∈ cs, NoParen c) (depth : Nat)
    (rest : List Char) : Closes depth (cs ++ rest) ↔ Closes depth rest := by
  induction cs with
  | nil => rfl
  | cons c cs ih =>
    obtain ⟨hc, hcs⟩ := List.forall_mem_cons.mp h
    rw [List.cons_append, closes_cons_iff hc, ih hcs]

/-- Whether the parentheses of a text match is seen from a text that closes as well as its end does. -/
theorem closes_append_congr {as bs : List Char} (h : ∀ depth, Closes depth as ↔ Closes depth bs)
    (pre : List Char) (depth : Nat) : Closes depth (pre ++ as) ↔ Closes depth (pre ++ bs) := by
  induction pre generalizing depth with
  | nil => exact h depth
  | cons c pre ih =>
    rw [List.cons_append, List.cons_append]
    by_cases hopen : c = '('
    · rw [hopen, closes_open_iff, closes_open_iff, ih]
    · by_cases hclose : c = ')'
      · simp only [hclose, closes_close_iff, ih]
      · rw [closes_cons_iff ⟨hopen, hclose⟩, closes_cons_iff ⟨hopen, hclose⟩, ih]

theorem Blanks.noParen {ws : List Char} (h : Blanks ws) : ∀ c ∈ ws, NoParen c :=
  fun c hc => Token.noParen_of_isBlank (h c hc)

/-- Blanks between parentheses do not matter for whether the parentheses of a text match. -/
theorem level_around_iff {pre ws post : List Char} (hws : Blanks ws) :
    Token.Level (around pre ws post) ↔ Token.Level (around pre [] post) := by
  simp only [Token.level_iff_balanced, ← closes_zero_iff, around]
  refine closes_append_congr (fun depth => ?_) pre 0
  rw [closes_open_iff, closes_open_iff, closes_append_left hws.noParen, List.nil_append]

/-- What closes everything that it opens does not end in an open parenthesis and blanks. -/
theorem not_level_open {pre ws : List Char} (hws : Blanks ws) :
    ¬Token.Level (pre ++ '(' :: ws) := by
  rw [Token.level_iff_balanced]
  rintro ⟨hall, hpre⟩
  have hopen : ws.count '(' = 0 := List.count_eq_zero.mpr fun h => (hws.noParen _ h).1 rfl
  have hclose : ws.count ')' = 0 := List.count_eq_zero.mpr fun h => (hws.noParen _ h).2 rfl
  have hbefore := hpre pre (List.prefix_append _ _)
  have hone : ('(' :: ws).count '(' = ws.count '(' + 1 := by simp
  have hsame : ('(' :: ws).count ')' = ws.count ')' := by simp
  rw [List.count_append, List.count_append, hone, hsame] at hall
  omega

namespace Token

theorem spells_blanks {ws : List Char} (h : Blanks ws) : Spells ws [] := by
  have hlex := Lexes.blanks h .nil 0
  rw [List.append_nil] at hlex
  exact spells_of_lexFrom hlex

/-! ### The place of a span -/

/-- A parenthesis right after the text opens a span under the name, after the given tokens. -/
def Opens (front : List Char) (before : List Token) (name : String) : Prop :=
  lex (String.ofList (around front [] [])) = .ok (before ++ [span name ""])

theorem opens_iff_spells {front : List Char} {before : List Token} {name : String} :
    Opens front before name ↔ Spells (around front [] []) (before ++ [span name ""]) :=
  lex_ofList_iff

theorem opens_name {name : String} (h : name = "" ∨ IsName name.toList) :
    Opens name.toList [] name := by
  have hvalid : Valid (span name "") := ⟨h, level_nil⟩
  have hspells := Spells.token hvalid trivial .nil
  rw [opens_iff_spells]
  simpa [Token.text, around] using hspells

theorem Opens.blank {c : Char} {front : List Char} {before : List Token} {name : String}
    (hc : isBlank c = true) (h : Opens front before name) : Opens (c :: front) before name := by
  rw [opens_iff_spells] at *
  exact .blank hc h

theorem Opens.token {t : Token} {front rest : List Char} {before : List Token} {name : String}
    (ht : t.Valid) (hstop : t.Stops (front ++ '(' :: rest)) (h : Opens front before name) :
    Opens (t.text ++ front) (t :: before) name := by
  rw [opens_iff_spells] at *
  have hhead : t.Stops (around front [] []) := hstop.of_head (by cases front <;> rfl)
  have hspells := Spells.token ht hhead h
  simpa [around] using hspells

theorem isName_of_opens {front : List Char} {before : List Token} {name : String}
    (h : Opens front before name) : name = "" ∨ IsName name.toList :=
  ((opens_iff_spells.mp h).valid (span name "") (by simp)).1

theorem blanks_of_spells_nil {cs : List Char} (h : Spells cs []) : Blanks cs := by
  generalize hts : ([] : List Token) = ts at h
  induction h with
  | nil => simp [Blanks]
  | blank hc _ ih => exact List.forall_mem_cons.mpr ⟨hc, ih hts⟩
  | token => cases hts

/-- In place of an empty span any other may stand, and any text may follow. -/
theorem Opens.spells {front : List Char} {before : List Token} {name : String}
    (h : Opens front before name) {inside back : List Char} {after : List Token}
    (hinside : Level inside) (hback : Spells back after) :
    Spells (around front inside back) (before ++ span name (String.ofList inside) :: after) := by
  obtain ⟨as, bs, hfront, -, -, hbs, hmore⟩ := (opens_iff_spells.mp h).cut
  have htext : ∀ cs rest, (span name (String.ofList cs)).text ++ rest = around name.toList cs rest := by
    simp [Token.text, around]
  have hnil : bs = [] := by
    rcases List.eq_nil_or_concat bs with hnil | ⟨bs', c, rfl⟩
    · exact hnil
    · -- the text ends in a parenthesis, which is no blank
      have hlast : (front ++ ['(']) ++ [')'] = (as ++ (span name "").text ++ bs') ++ [c] := by
        simpa [around] using hfront
      obtain ⟨-, hc⟩ := List.append_inj' hlast rfl
      have hblank := blanks_of_spells_nil hbs c (by simp)
      rw [← (List.cons.inj hc).1] at hblank
      cases hblank
  subst hnil
  have has : front = as ++ name.toList := by
    have hall : front ++ ['(', ')'] = (as ++ name.toList) ++ ['(', ')'] := by
      simpa [around, Token.text] using hfront
    exact List.append_cancel_right hall
  have hvalid : Valid (span name (String.ofList inside)) :=
    ⟨isName_of_opens h, by rwa [String.toList_ofList]⟩
  have hspells := hmore _ _ ?_ (Spells.token hvalid trivial hback)
  · rw [has]
    simpa [Token.text, around] using hspells
  · cases hname : name.toList <;> simp [Token.text, hname]

/-! ### Finding the span -/

theorem open_not_mem_text {t : Token} (ht : t.Valid) (hspan : ∀ name contents, t ≠ span name contents) :
    '(' ∉ t.text := by
  cases t with
  | operand o =>
    cases o with
    | num digits => exact fun h => (noParen_of_isDigit (ht.2 _ h)).1 rfl
    | ref name => exact fun h => (IsName.noParen ht _ h).1 rfl
  | op s => cases s <;> decide
  | span name contents => exact absurd rfl (hspan name contents)

theorem open_not_mem_name {name contents : String} (h : (span name contents).Valid) :
    '(' ∉ name.toList := by
  rcases h.1 with rfl | hname
  · simp
  · exact fun hmem => (hname.noParen _ hmem).1 rfl

/-- A pair of parentheses around blanks stands after the closing parenthesis of a span or in its
inside. -/
theorem cases_of_append_close {contents pre ws post rest : List Char} (hlevel : Level contents)
    (hws : Blanks ws) (h : contents ++ ')' :: rest = around pre ws post) :
    (∃ pre', pre = contents ++ ')' :: pre' ∧ rest = around pre' ws post) ∨
      ∃ post', contents = around pre ws post' ∧ post = post' ++ ')' :: rest := by
  rcases List.append_eq_append_iff.mp h with ⟨x, rfl, hx⟩ | ⟨x, hcontents, hx⟩
  · cases x with
    | nil => cases (List.cons.inj hx).1
    | cons c pre' =>
      obtain ⟨rfl, hafter⟩ := List.cons.inj hx
      exact .inl ⟨pre', rfl, hafter⟩
  · cases x with
    | nil => cases (List.cons.inj hx).1
    | cons c inside =>
      obtain ⟨rfl, hinside⟩ := List.cons.inj hx
      have hclose : ')' ∉ ws := fun hm => (hws.noParen _ hm).2 rfl
      have hafter : ws ++ ')' :: post = inside ++ ')' :: rest := hinside
      obtain ⟨y, rfl, hy⟩ := exists_of_append_eq hafter hclose
      cases y with
      | nil =>
        rw [List.append_nil] at hcontents
        exact absurd (hcontents ▸ hlevel) (not_level_open hws)
      | cons c post' =>
        obtain ⟨rfl, hpost⟩ := List.cons.inj hy
        exact .inr ⟨post', hcontents, hpost⟩

/-- A pair of parentheses around blanks stands after the first token, or it is that of the token, or it
stands in the inside of the token. -/
theorem cases_of_text_append {t : Token} (ht : t.Valid) {pre ws post rest : List Char}
    (hws : Blanks ws) (h : t.text ++ rest = around pre ws post) :
    (∃ pre', pre = t.text ++ pre' ∧ rest = around pre' ws post) ∨
      (∃ name, t = span name (String.ofList ws) ∧ pre = name.toList ∧ post = rest) ∨
      ∃ name pre' post', t = span name (String.ofList (around pre' ws post')) ∧
        pre = name.toList ++ '(' :: pre' ∧ post = post' ++ ')' :: rest := by
  by_cases hspan : ∀ name contents, t ≠ span name contents
  · exact .inl (exists_of_append_eq h (open_not_mem_text ht hspan))
  · obtain ⟨name, contents, rfl⟩ : ∃ name contents, t = span name contents := by
      simpa using hspan
    have htext : name.toList ++ '(' :: (contents.toList ++ ')' :: rest) = around pre ws post := by
      simpa [Token.text] using h
    obtain ⟨x, rfl, hx⟩ := exists_of_append_eq htext (open_not_mem_name ht)
    cases x with
    | nil =>
      -- the closing parenthesis is found by the same search in both texts
      have hsplit := ht.2.splitSpan_close rest
      rw [(List.cons.inj hx).2, (level_of_noParen hws.noParen).splitSpan_close post] at hsplit
      obtain ⟨hinside, hrest⟩ := Prod.mk.inj (Option.some.inj hsplit)
      refine .inr (.inl ⟨name, ?_, by simp, hrest⟩)
      rw [hinside, String.ofList_toList]
    | cons c pre' =>
      obtain ⟨rfl, htail⟩ := List.cons.inj hx
      rcases cases_of_append_close ht.2 hws htail with ⟨pre₂, rfl, hrest⟩ | ⟨post', hin, hpost⟩
      · exact .inl ⟨pre₂, by simp [Token.text], hrest⟩
      · refine .inr (.inr ⟨name, pre', post', ?_, rfl, hpost⟩)
        rw [← hin, String.ofList_toList]

/-- A pair of parentheses around blanks in a text is a span of the text, or it stands in the inside of
one. -/
theorem Spells.exists_around {pre ws post : List Char} {ts : List Token}
    (h : Spells (around pre ws post) ts) (hws : Blanks ws) :
    ∃ front before name contents back after,
      ts = before ++ span name contents :: after ∧ Opens front before name ∧ Spells back after ∧
        ((pre = front ∧ contents = String.ofList ws ∧ post = back) ∨
          ∃ pre' post', contents = String.ofList (around pre' ws post') ∧
            pre = front ++ '(' :: pre' ∧ post = post' ++ ')' :: back) := by
  generalize hcs : around pre ws post = cs at h
  induction h generalizing pre with
  | nil => cases pre <;> cases hcs
  | @blank c cs ts hc _ ih =>
    cases pre with
    | nil =>
      obtain ⟨rfl, -⟩ := List.cons.inj hcs
      cases hc
    | cons d pre =>
      obtain ⟨rfl, htail⟩ := List.cons.inj hcs
      obtain ⟨front, before, name, contents, back, after, rfl, hopen, hback, hplace⟩ := ih htail
      refine ⟨d :: front, before, name, contents, back, after, rfl, hopen.blank hc, hback, ?_⟩
      rcases hplace with ⟨rfl, hempty⟩ | ⟨pre', post', hcontents, rfl, hpost⟩
      · exact .inl ⟨rfl, hempty⟩
      · exact .inr ⟨pre', post', hcontents, rfl, hpost⟩
  | @token t rest ts ht hrest hspells ih =>
    rcases cases_of_text_append ht hws hcs.symm with
      ⟨pre₁, rfl, htail⟩ | ⟨name, rfl, rfl, rfl⟩ | ⟨name, pre', post', rfl, rfl, rfl⟩
    · obtain ⟨front, before, name, contents, back, after, rfl, hopen, hback, hplace⟩ := ih htail.symm
      have hfront : ∃ more, rest = front ++ '(' :: more := by
        rcases hplace with ⟨rfl, -⟩ | ⟨pre', post', -, rfl, -⟩
        · exact ⟨_, htail⟩
        · exact ⟨_, by rw [htail, around, List.append_assoc]; rfl⟩
      obtain ⟨more, rfl⟩ := hfront
      refine ⟨t.text ++ front, t :: before, name, contents, back, after, rfl, hopen.token ht hrest,
        hback, ?_⟩
      rcases hplace with ⟨rfl, hempty⟩ | ⟨pre', post', hcontents, rfl, hpost⟩
      · exact .inl ⟨rfl, hempty⟩
      · exact .inr ⟨pre', post', hcontents, by simp, hpost⟩
    · exact ⟨name.toList, [], name, _, _, ts, rfl, opens_name ht.1, hspells, .inl ⟨rfl, rfl, rfl⟩⟩
    · exact ⟨name.toList, [], name, _, rest, ts, rfl, opens_name ht.1, hspells,
        .inr ⟨pre', post', rfl, rfl, rfl⟩⟩

end Token

end FormulaGrid
