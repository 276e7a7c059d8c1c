import FormulaGrid.Proofs.Reread
import FormulaGrid.Proofs.Spelling

/-!
# Proofs.Occurrence — where the names of a formula stand in its text

A formula uses no name that is not written in its text as a word of its own.  The grammar takes a name
only where it is the sole operand of its segment, so the word stands after nothing, a blank, an operator
or a parenthesis, and it is not the name of a span (`Catalog.standsIn_of_parse`).  This holds over every
catalog.
-/

namespace FormulaGrid

/-- The name is a word of the text: no character next to it would belong to it, and no parenthesis makes
it the name of a span. -/
def StandsIn (name : String) (cs : List Char) : Prop :=
  ∃ as bs, cs = as ++ (name.toList ++ bs) ∧ (∀ c ∈ as.getLast?, isNameChar c = false) ∧
    ∀ c ∈ bs.head?, isNameChar c = false ∧ c ≠ '('

/-- What holds of the last member of either list holds of that of both together. -/
theorem forall_getLast_append {α : Type} {P : α → Prop} {as bs : List α}
    (ha : bs = [] → ∀ x ∈ as.getLast?, P x) (hb : ∀ x ∈ bs.getLast?, P x) :
    ∀ x ∈ (as ++ bs).getLast?, P x := by
  cases bs with
  | nil => simpa using ha rfl
  | cons b bs =>
    rw [List.getLast?_append_cons]
    exact hb

/-- A word of the inside of a span is a word of the text around it. -/
theorem StandsIn.of_contents {name label contents : String} (h : StandsIn name contents.toList)
    (as bs : List Char) : StandsIn name (as ++ ((Token.span label contents).text ++ bs)) := by
  obtain ⟨as', bs', hcontents, hleft, hright⟩ := h
  refine ⟨as ++ label.toList ++ ['('] ++ as', bs' ++ ')' :: bs, ?_, ?_, ?_⟩
  · simp [Token.text, hcontents]
  · refine forall_getLast_append (fun _ c hc => ?_) hleft
    obtain rfl : '(' = c := by simpa using hc
    decide
  · intro c hc
    cases bs' with
    | nil =>
      obtain rfl : ')' = c := by simpa using hc
      decide
    | cons d bs' => exact hright c hc

namespace Token

/-! ### The character before a word -/

theorem isNameChar_of_isBlank {c : Char} (h : isBlank c = true) : isNameChar c = false := by
  rw [Bool.eq_false_iff]
  intro hname
  have hrange := toNat_of_isNameChar hname
  rw [isBlank_eq_false (by omega) (by omega)] at h
  cases h

theorem isNameChar_char (s : Symbol) : isNameChar s.char = false := by cases s <;> decide

/-- The token is an operator. -/
def IsOp (t : Token) : Prop := ∃ s, t = op s

/-- A text whose last token is an operator does not end in a character of a name. -/
theorem Spells.getLast_isNameChar {cs : List Char} {ts : List Token} (h : Spells cs ts)
    (hop : ∀ t ∈ ts.getLast?, t.IsOp) : ∀ c ∈ cs.getLast?, isNameChar c = false := by
  induction h with
  | nil => simp
  | @blank d cs ts hd _ ih =>
    show ∀ c ∈ ([d] ++ cs).getLast?, isNameChar c = false
    refine forall_getLast_append (fun _ c hc => ?_) (ih hop)
    obtain rfl : d = c := by simpa using hc
    exact isNameChar_of_isBlank hd
  | @token t rest ts _ _ hspells ih =>
    refine forall_getLast_append (fun hrest c hc => ?_)
      (ih fun u hu => hop u (List.mem_getLast?_cons hu))
    -- the token is the last one, so it is an operator
    subst hrest
    obtain rfl := hspells.eq_nil
    obtain ⟨s, rfl⟩ := hop t rfl
    obtain rfl : s.char = c := by simpa [Token.text] using hc
    exact isNameChar_char s

/-- The word is an operand, and nothing or an operator is right before it. -/
def Leads (name : String) (ts : List Token) : Prop :=
  ∃ before after, ts = before ++ operand (.ref name) :: after ∧ ∀ t ∈ before.getLast?, t.IsOp

theorem Leads.standsIn {name : String} {cs : List Char} {ts : List Token} (h : Leads name ts)
    (hcs : Spells cs ts) : StandsIn name cs := by
  obtain ⟨before, after, rfl, hop⟩ := h
  obtain ⟨as, bs, rfl, has, hstop, -⟩ := hcs.cut
  exact ⟨as, bs, rfl, has.getLast_isNameChar hop, hstop⟩

theorem Leads.append {name : String} {ts : List Token} (h : Leads name ts) {front : List Token}
    (hop : ∀ t ∈ front.getLast?, t.IsOp) (back : List Token) :
    Leads name (front ++ (ts ++ back)) := by
  obtain ⟨before, after, rfl, hbefore⟩ := h
  exact ⟨front ++ before, after ++ back, by simp, forall_getLast_append (fun _ => hop) hbefore⟩

theorem intercalate_parts (ts : List Token) :
    [op .comma].intercalate ((parts ts).1 :: (parts ts).2) = ts := by
  fun_induction parts ts with
  | case1 => rfl
  | case2 ts ih => simp [List.intercalate_cons_cons, ih]
  | case3 t ts _ ih =>
    cases hothers : (parts ts).2 with
    | nil => simpa [hothers] using ih
    | cons q others =>
      rw [hothers, List.intercalate_cons_cons] at ih
      rw [List.intercalate_cons_cons, List.cons_append, List.cons_append, ih]

/-- A part stands in its token list after nothing or a comma. -/
theorem exists_of_mem_parts {ts p : List Token} (hp : p ∈ (parts ts).1 :: (parts ts).2) :
    ∃ front back, ts = front ++ (p ++ back) ∧ ∀ t ∈ front.getLast?, t.IsOp := by
  obtain ⟨ps, qs, hsplit⟩ := List.append_of_mem hp
  have hts := intercalate_parts ts
  rw [hsplit] at hts
  have hback : ∃ back, [op .comma].intercalate (p :: qs) = p ++ back := by
    cases qs with
    | nil => exact ⟨[], by simp⟩
    | cons q qs =>
      rw [List.intercalate_cons_cons, List.append_assoc]
      exact ⟨_, rfl⟩
  obtain ⟨back, hback⟩ := hback
  by_cases hps : ps = []
  · subst hps
    exact ⟨[], back, by rw [← hts, List.nil_append, List.nil_append, hback], by simp⟩
  · refine ⟨[op .comma].intercalate ps ++ [op .comma], back, ?_, ?_⟩
    · rw [← hts, intercalate_append hps (by simp), hback]
    · rw [List.getLast?_concat]
      rintro t ht
      exact ⟨.comma, (Option.some.inj ht).symm⟩

end Token

open Formula Catalog

/-! ### The names of a node -/

namespace Catalog

variable {c : Catalog}

theorem flatMap_refs_unpack (args : List Formula) :
    (unpack args).flatMap refs = args.flatMap refs := by
  unfold unpack
  split
  next => split <;> simp
  next => rfl

theorem refs_of_build {name : String} {args : List Formula} {f : Formula}
    (h : c.build name args = .ok f) : f.refs = args.flatMap refs := by
  unfold build at h
  split at h
  next =>
    rw [(make_eq_ok_iff.mp h).2, refs_app]
  next => cases h

/-- A node uses the names that its arguments use. -/
theorem refs_of_combine {name : String} {args : List Formula} {f : Formula}
    (h : c.combine name args = .ok f) : f.refs = args.flatMap refs := by
  rw [← flatMap_refs_unpack]
  dsimp only [combine] at h
  split at h
  · split at h
    next only honly =>
      cases h
      simp [honly]
    next => exact refs_of_build h
  · exact refs_of_build h

end Catalog

namespace Builder

variable {c : Catalog}

theorem refs_of_node {name : String} {args : List Formula} {f : Formula}
    (h : c.builder.node name args = .ok f) : f.refs = args.flatMap refs :=
  refs_of_combine (apply_of_node h)

theorem eq_of_mem_refs_ofOperands {held : List Operand} {f : Formula} {name : String}
    (h : c.builder.ofOperands held = .ok f) (hname : name ∈ f.refs) : held = [.ref name] := by
  unfold ofOperands at h
  split at h
  next =>
    cases h
    simp [builder] at hname
  next n =>
    cases h
    have hn : name = n := by simpa [builder] using hname
    rw [hn]
  next =>
    split at h
    next =>
      cases h
      simp [builder] at hname
    next => cases h
  next => cases h

/-- A name of a formula of tokens is a leading word among them, or comes from the inside of a span. -/
def NamedBy (inner : String → Except ParseError Formula) (name : String) (ts : List Token) : Prop :=
  Token.Leads name ts ∨
    ∃ label contents f, Token.span label contents ∈ ts ∧ inner contents = .ok f ∧ name ∈ f.refs

variable {inner : String → Except ParseError Formula} {name : String}

theorem NamedBy.append {ts : List Token} (h : NamedBy inner name ts) {front : List Token}
    (hop : ∀ t ∈ front.getLast?, t.IsOp) (back : List Token) :
    NamedBy inner name (front ++ (ts ++ back)) := by
  rcases h with h | ⟨label, contents, f, hm, hf, hname⟩
  · exact .inl (h.append hop back)
  · exact .inr ⟨label, contents, f, by simp [hm], hf, hname⟩

theorem namedBy_of_ofChain {k : Chain} {e : Formula} (h : c.builder.ofChain inner k = .ok e)
    (hname : name ∈ e.refs) : NamedBy inner name k.toTokens := by
  induction k generalizing e with
  | last held =>
    rw [eq_of_mem_refs_ofOperands h hname]
    exact .inl ⟨[], [], rfl, by simp⟩
  | op held symbol rest ih =>
    rw [ofChain] at h
    split at h
    · rw [refs_of_node h] at hname
      simp [builder] at hname
    · obtain ⟨l, hl, h⟩ := Except.bind_eq_ok_iff.mp h
      obtain ⟨r, hr, h⟩ := Except.bind_eq_ok_iff.mp h
      have hboth : name ∈ l.refs ∨ name ∈ r.refs := by simpa [refs_of_node h] using hname
      rcases hboth with hleft | hright
      · rw [eq_of_mem_refs_ofOperands hl hleft]
        exact .inl ⟨[], _, rfl, by simp⟩
      · -- the operator stands before all tokens of its right side
        have hfront : ∀ t ∈ (held.map Token.operand ++ [Token.op symbol]).getLast?, t.IsOp := by
          rw [List.getLast?_concat]
          rintro t ht
          exact ⟨symbol, (Option.some.inj ht).symm⟩
        simpa [Chain.toTokens] using (ih hr hright).append hfront []
  | span held label contents rest =>
    rw [ofChain] at h
    split at h
    · rw [refs_of_node h] at hname
      simp [builder] at hname
    · obtain ⟨a, ha, h⟩ := Except.bind_eq_ok_iff.mp h
      have hmem : name ∈ a.refs := by simpa [refs_of_node h] using hname
      exact .inr ⟨label, contents, a, by simp [Chain.toTokens], ha, hmem⟩

theorem namedBy_of_ofTokens {ts : List Token} {e : Formula}
    (h : c.builder.ofTokens inner ts = .ok e) (hname : name ∈ e.refs) : NamedBy inner name ts := by
  have hpart : ∀ p ∈ (Token.parts ts).1 :: (Token.parts ts).2, ∀ f,
      c.builder.ofChain inner (.ofTokens p) = .ok f → name ∈ f.refs → NamedBy inner name ts := by
    intro p hp f hf hmem
    obtain ⟨front, back, hts, hop⟩ := Token.exists_of_mem_parts hp
    have hchain := namedBy_of_ofChain hf hmem
    rw [Chain.toTokens_ofTokens] at hchain
    exact hts ▸ hchain.append hop back
  rcases ofTokens_cases h with ⟨p, hp, hf⟩ | ⟨args, -, hargs, hnode⟩
  · exact hpart p hp e hf hname
  · rw [refs_of_node hnode] at hname
    obtain ⟨a, ha, hmem⟩ := List.mem_flatMap.mp hname
    obtain ⟨p, hp, hf⟩ := hargs a ha
    exact hpart p hp a hf hmem

end Builder

namespace Catalog

/-- The names that a formula of a text uses are words of the text. -/
theorem standsIn_of_parse {c : Catalog} {text : String} {e : Formula} (h : c.parse text = .ok e)
    {name : String} (hname : name ∈ e.refs) : IsName name.toList ∧ StandsIn name text.toList := by
  refine Builder.parse_ind
    (P := fun text e => name ∈ e.refs → IsName name.toList ∧ StandsIn name text.toList) ?_ h hname
  intro text ts e hts hinner hnode hname
  have hspells := Token.spells_iff_lex.mp hts
  rcases Builder.namedBy_of_ofTokens hnode hname with hlead | ⟨label, contents, f, hm, hf, hmem⟩
  · have hvalid : (Token.operand (.ref name)).Valid := by
      obtain ⟨before, after, rfl, -⟩ := hlead
      exact hspells.valid _ (by simp)
    exact ⟨hvalid, hlead.standsIn hspells⟩
  · obtain ⟨hword, hstands⟩ := hinner label contents hm f hf hmem
    obtain ⟨before, after, rfl⟩ := List.append_of_mem hm
    obtain ⟨as, bs, htext, -⟩ := hspells.cut
    exact ⟨hword, htext ▸ hstands.of_contents as bs⟩

end Catalog

end FormulaGrid
