import FormulaGrid.Proofs.Layout
import Mathlib.Data.List.Basic

/-!
# Proofs.Spelling — texts taken apart token by token

A text is spelled out from the left by its tokens and the blanks between them (`spells_iff_lex`).  By
induction over this relation the parentheses of a text match (`Spells.level`), texts are put together
where the first one does not go on into the second (`Spells.append`), and a text is cut at each of its
tokens (`Spells.cut`).
-/

namespace FormulaGrid.Token

/-- The text consists of blanks and of the tokens, none of which goes on into what comes after it. -/
inductive Spells : List Char → List Token → Prop
  | nil : Spells [] []
  | blank {c : Char} {cs : List Char} {ts : List Token} (hc : isBlank c = true) (h : Spells cs ts) :
      Spells (c :: cs) ts
  | token {t : Token} {rest : List Char} {ts : List Token} (ht : t.Valid) (hrest : t.Stops rest)
      (h : Spells rest ts) : Spells (t.text ++ rest) (t :: ts)

theorem spells_of_lexFrom {position : Nat} {cs : List Char} {ts : List Token}
    (h : lexFrom position cs = .ok ts) : Spells cs ts := by
  fun_induction lexFrom position cs generalizing ts with
  | case1 =>
    cases h
    exact .nil
  | case2 position c cs hc ih => exact .blank hc (ih h)
  | case3 position c cs _ t rest hnext ih =>
    obtain ⟨us, hus, rfl⟩ := Except.map_eq_ok_iff.mp h
    rw [← text_append_of_next hnext]
    exact .token (valid_of_next hnext) (stops_of_next hnext) (ih hus)
  | case4 => cases h

theorem Spells.lexes {cs : List Char} {ts : List Token} (h : Spells cs ts) : Lexes cs ts := by
  induction h with
  | nil => exact .nil
  | blank hc _ ih => exact ih.blank hc
  | token ht hrest _ ih => exact ih.token ht hrest

theorem spells_iff_lex {text : String} {ts : List Token} :
    lex text = .ok ts ↔ Spells text.toList ts :=
  ⟨spells_of_lexFrom, fun h => h.lexes 0⟩

theorem lex_ofList_iff {cs : List Char} {ts : List Token} :
    lex (String.ofList cs) = .ok ts ↔ Spells cs ts := by
  rw [spells_iff_lex, String.toList_ofList]

theorem Spells.eq_nil {ts : List Token} (h : Spells [] ts) : ts = [] :=
  Except.ok.inj (h.lexes.lex_eq.symm.trans Lexes.nil.lex_eq)

theorem Spells.valid {cs : List Char} {ts : List Token} (h : Spells cs ts) : ∀ t ∈ ts, t.Valid :=
  valid_of_mem_lexFrom (h.lexes 0)

/-! ### Parentheses match -/

theorem level_text {t : Token} (h : t.Valid) : Level t.text := by
  cases t with
  | operand o =>
    cases o with
    | num digits => exact level_of_noParen fun c hc => noParen_of_isDigit (h.2 c hc)
    | ref name => exact level_of_noParen h.noParen
  | op s => exact level_of_noParen (by cases s <;> simp [text, NoParen, Symbol.char])
  | span name contents =>
    obtain ⟨hname, hcontents⟩ := h
    have hlevel : Level name.toList := by
      rcases hname with rfl | hname
      · exact level_nil
      · exact level_of_noParen hname.noParen
    exact hlevel.append hcontents.parens

theorem noParen_of_isBlank {c : Char} (h : isBlank c = true) : NoParen c := by
  constructor <;> rintro rfl <;> cases h

/-- The parentheses of a text with tokens match. -/
theorem Spells.level {cs : List Char} {ts : List Token} (h : Spells cs ts) : Level cs := by
  induction h with
  | nil => exact level_nil
  | @blank c cs _ hc _ ih =>
    have hone : Level [c] := level_of_noParen (by simpa using noParen_of_isBlank hc)
    exact hone.append ih
  | token ht _ _ ih => exact (level_text ht).append ih

/-! ### Putting texts together and taking them apart -/

/-- Whether a text goes on with a token is seen from its first character. -/
theorem Stops.of_head {t : Token} {rest rest' : List Char} (h : t.Stops rest)
    (hhead : rest'.head? = rest.head?) : t.Stops rest' := by
  cases t with
  | operand o => cases o <;> simpa [Stops, hhead] using h
  | op | span => exact trivial

/-- Texts are put together where the last token of the first one does not go on into the second. -/
theorem Spells.append {as bs : List Char} {ts us : List Token} (has : Spells as ts)
    (hbs : Spells bs us) (hstop : ∀ t ∈ ts.getLast?, t.Stops bs) : Spells (as ++ bs) (ts ++ us) := by
  induction has with
  | nil => exact hbs
  | blank hc _ ih => exact .blank hc (ih hstop)
  | @token t rest ts ht hrest hspells ih =>
    have hhead : t.Stops (rest ++ bs) := by
      cases rest with
      | cons c rest => exact hrest.of_head rfl
      | nil =>
        -- no token is left, so the first token is the last one
        obtain rfl := hspells.eq_nil
        exact hstop t rfl
    rw [List.append_assoc]
    exact .token ht hhead (ih fun u hu => hstop u (List.mem_getLast?_cons hu))

/-- A text is cut at each of its tokens.  What comes before the token may be followed by any text that
starts like the token. -/
theorem Spells.cut {cs : List Char} {before after : List Token} {t : Token}
    (h : Spells cs (before ++ t :: after)) :
    ∃ as bs, cs = as ++ (t.text ++ bs) ∧ Spells as before ∧ t.Stops bs ∧ Spells bs after ∧
      ∀ rest us, rest.head? = (t.text ++ bs).head? → Spells rest us →
        Spells (as ++ rest) (before ++ us) := by
  generalize hts : before ++ t :: after = ts at h
  induction h generalizing before with
  | nil => simp at hts
  | @blank c cs ts hc _ ih =>
    obtain ⟨as, bs, rfl, has, hstop, hbs, hmore⟩ := ih hts
    exact ⟨c :: as, bs, rfl, .blank hc has, hstop, hbs,
      fun rest us hhead hrest => .blank hc (hmore rest us hhead hrest)⟩
  | @token u rest ts hu hrest hspells ih =>
    cases before with
    | nil =>
      obtain ⟨rfl, rfl⟩ := List.cons.inj hts
      exact ⟨[], rest, rfl, .nil, hrest, hspells, fun _ _ _ h => h⟩
    | cons v before =>
      obtain ⟨rfl, htail⟩ := List.cons.inj hts
      obtain ⟨as, bs, rfl, has, hstop, hbs, hmore⟩ := ih htail
      have hv : v.Stops as := by
        cases as with
        | nil => exact stops_nil v
        | cons c as => exact hrest.of_head rfl
      refine ⟨v.text ++ as, bs, by simp, .token hu hv has, hstop, hbs, fun more us hhead hus => ?_⟩
      have hsame : (as ++ more).head? = (as ++ (t.text ++ bs)).head? := by
        cases as with
        | nil => exact hhead
        | cons c as => rfl
      rw [List.append_assoc]
      exact .token hu (hrest.of_head hsame) (hmore more us hhead hus)

/-- A text with tokens is the inside of one token under any name, or without one. -/
theorem lex_span {name text : String} {ts : List Token} (hname : name = "" ∨ IsName name.toList)
    (h : lex text = .ok ts) : lex (name ++ "(" ++ text ++ ")") = .ok [span name text] := by
  have hvalid : Valid (span name text) := ⟨hname, (spells_iff_lex.mp h).level⟩
  have hspells := Spells.token hvalid trivial .nil
  rw [spells_iff_lex]
  simpa [Token.text] using hspells

end FormulaGrid.Token
