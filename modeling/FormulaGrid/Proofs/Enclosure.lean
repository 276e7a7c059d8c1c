import FormulaGrid.Proofs.ParsedShape
import FormulaGrid.Proofs.Spelling

/-!
# Proofs.Enclosure — parentheses around a text

A text in parentheses is a single span without a name, and the node of such a span is made from the node
of what it encloses.  Whatever the catalog, a formula of a text comes out of this unchanged
(`Catalog.grouped_of_parse`), so parentheses around a whole text never matter
(`Catalog.parse_enclose`).
-/

namespace FormulaGrid

/-- A text in parentheses. -/
def enclose (text : String) : String := "(" ++ text ++ ")"

namespace Token

/-- A text in parentheses is one token, as soon as the text has tokens at all. -/
theorem lex_enclose {text : String} {ts : List Token} (h : lex text = .ok ts) :
    lex (enclose text) = .ok [span "" text] := by
  have hspan := lex_span (.inl rfl) h
  rwa [String.empty_append] at hspan

theorem lex_enclose_iterate {text : String} {ts : List Token} (h : lex text = .ok ts) (n : Nat) :
    ∃ us, lex (enclose^[n] text) = .ok us := by
  induction n with
  | zero => exact ⟨ts, h⟩
  | succ n ih =>
    obtain ⟨us, hus⟩ := ih
    rw [Function.iterate_succ_apply']
    exact ⟨_, lex_enclose hus⟩

end Token

namespace Catalog

variable {c : Catalog}

/-- A span without a name over the formula is the formula. -/
def Grouped (c : Catalog) (f : Formula) : Prop := c.combine "" [f] = .ok f

theorem grouped_of_leaf {f : Formula} (h : f.IsLeaf) : c.Grouped f := by
  simp only [Grouped, combine, unpack_leaf h, if_true]

theorem grouped_blank : c.Grouped .blank := grouped_of_leaf trivial

theorem grouped_of_name_ne {op : Operation} {args : List Formula}
    (h : op.name ≠ Symbol.comma.name) : c.Grouped (.app op args) := by
  simp only [Grouped, combine, unpack_app h, if_true]

/-- A comma node is made again from its arguments, unless it has a sole one. -/
theorem grouped_of_build_comma {args : List Formula} {f : Formula} (hlen : 2 ≤ args.length)
    (h : c.build Symbol.comma.name args = .ok f) : c.Grouped f := by
  obtain ⟨op, rfl⟩ : ∃ op, f = .app op args := by
    unfold build at h
    split at h
    next op _ => exact ⟨op, (Formula.make_eq_ok_iff.mp h).2⟩
    next => cases h
  by_cases hop : op.name = Symbol.comma.name
  · match args, hlen with
    | a :: b :: rest, _ => simpa only [Grouped, combine, unpack, hop, if_true] using h
  · exact grouped_of_name_ne hop

/-- The operation under a name is a comma only if the name is. -/
theorem grouped_of_build {name : String} {args : List Formula} {f : Formula}
    (hname : upper name ≠ Symbol.comma.name) (h : c.build name args = .ok f) : c.Grouped f := by
  unfold build at h
  split at h
  next op hop =>
    obtain ⟨-, rfl⟩ := Formula.make_eq_ok_iff.mp h
    refine grouped_of_name_ne fun hcomma => hname ?_
    rw [← (mem_ops_of_find? hop).2, Operation.key, hcomma]
    decide
  next => cases h

theorem upper_symbol_ne {s : Symbol} (h : s ≠ .comma) : upper s.name ≠ Symbol.comma.name := by
  cases s <;> first | exact absurd rfl h | decide

theorem upper_ne_of_isName {name : String} (h : IsName name.toList) :
    upper name ≠ Symbol.comma.name := by
  obtain ⟨x, xs, hupper, hx⟩ := exists_toList_upper h
  intro he
  rw [he] at hupper
  obtain ⟨rfl, -⟩ := List.cons.inj hupper
  exact absurd hx (by decide)

theorem symbol_name_ne (s : Symbol) : s.name ≠ "" := by cases s <;> decide

theorem grouped_of_combine {name : String} {args : List Formula} {f : Formula} (hne : name ≠ "")
    (hname : upper name ≠ Symbol.comma.name) (h : c.combine name args = .ok f) : c.Grouped f := by
  simp only [combine, if_neg hne] at h
  exact grouped_of_build hname h

end Catalog

namespace Builder

open Catalog

variable {c : Catalog}

theorem grouped_of_ofOperands {held : List Operand} {f : Formula}
    (h : c.builder.ofOperands held = .ok f) : c.Grouped f := by
  unfold ofOperands at h
  split at h
  next =>
    cases h
    exact grouped_of_leaf trivial
  next =>
    cases h
    exact grouped_of_leaf trivial
  next =>
    split at h
    next =>
      cases h
      exact grouped_of_leaf trivial
    next => cases h
  next => cases h

theorem grouped_of_ofChain {inner : String → Except ParseError Formula} {k : Chain} {f : Formula}
    (hvalid : ∀ t ∈ k.toTokens, t.Valid) (hcomma : Token.op .comma ∉ k.toTokens)
    (hinner : ∀ name contents, Token.span name contents ∈ k.toTokens → ∀ g,
      inner contents = .ok g → c.Grouped g)
    (h : c.builder.ofChain inner k = .ok f) : c.Grouped f := by
  cases k with
  | last held => exact grouped_of_ofOperands h
  | op held symbol rest =>
    have hs : symbol ≠ .comma := by
      rintro rfl
      simp [Chain.toTokens] at hcomma
    have hnode : ∀ args, c.builder.node symbol.name args = .ok f → c.Grouped f := fun _ hargs =>
      grouped_of_combine (symbol_name_ne symbol) (upper_symbol_ne hs) (apply_of_node hargs)
    rw [ofChain] at h
    split at h
    · exact hnode _ h
    · obtain ⟨l, -, h⟩ := Except.bind_eq_ok_iff.mp h
      obtain ⟨r, -, h⟩ := Except.bind_eq_ok_iff.mp h
      exact hnode _ h
  | span held name contents rest =>
    have hgroup : ∀ g, c.Grouped g → c.builder.node "" [g] = .ok f → c.Grouped f := by
      intro g hg hnode
      have hsame : Except.ok g = Except.ok f := hg.symm.trans (apply_of_node hnode)
      exact Except.ok.inj hsame ▸ hg
    rw [ofChain] at h
    split at h
    · exact hgroup _ grouped_blank h
    · obtain ⟨a, ha, h⟩ := Except.bind_eq_ok_iff.mp h
      have hga := hinner name contents (by simp [Chain.toTokens]) a ha
      rcases (hvalid (.span name contents) (by simp [Chain.toTokens])).1 with rfl | hname
      · exact hgroup a hga h
      · exact grouped_of_combine (ne_empty_of_isName hname) (upper_ne_of_isName hname)
          (apply_of_node h)

theorem grouped_of_ofTokens {inner : String → Except ParseError Formula} {ts : List Token}
    {f : Formula} (hvalid : ∀ t ∈ ts, t.Valid)
    (hinner : ∀ name contents, Token.span name contents ∈ ts → ∀ g, inner contents = .ok g →
      c.Grouped g)
    (h : c.builder.ofTokens inner ts = .ok f) : c.Grouped f := by
  rcases ofTokens_cases h with ⟨p, hp, hf⟩ | ⟨args, hlen, -, hnode⟩
  · have hsub : ∀ t ∈ (Chain.ofTokens p).toTokens, t ∈ ts :=
      fun t ht => Token.mem_of_mem_parts hp (by simpa using ht)
    exact grouped_of_ofChain (fun t ht => hvalid t (hsub t ht))
      (by simpa using Token.comma_not_mem_of_mem_parts hp)
      (fun name contents hm => hinner name contents (hsub _ hm)) hf
  · have hcombine : c.combine Symbol.comma.name args = .ok f := apply_of_node hnode
    simp only [combine, unpack_of_length hlen, if_neg (symbol_name_ne .comma)] at hcombine
    exact grouped_of_build_comma hlen hcombine

end Builder

namespace Catalog

/-- Every formula of a text comes out of a span without a name as it is. -/
theorem grouped_of_parse {c : Catalog} {text : String} {f : Formula} (h : c.parse text = .ok f) :
    c.Grouped f :=
  Builder.parse_ind
    (fun _ _ _ hts hinner hnode =>
      Builder.grouped_of_ofTokens (Token.valid_of_lex hts) hinner hnode) h

/-- Parentheses around a text with tokens do not change what the text is read as, nor how it fails. -/
theorem parse_enclose_once (c : Catalog) {text : String} {ts : List Token}
    (h : Token.lex text = .ok ts) : c.parse (enclose text) = c.parse text := by
  have hspan : c.parse (enclose text) =
      c.builder.ofChain c.builder.parse (.span [] "" text []) := by
    show c.builder.parse (enclose text) = _
    rw [Builder.parse_eq, Token.lex_enclose h]
    rfl
  rw [hspan, Builder.ofChain]
  by_cases hempty : text = ""
  · subst hempty
    have hblank : c.builder.node "" [c.builder.blank] = .ok .blank :=
      Builder.node_of_apply (grouped_blank : c.Grouped .blank)
    rw [if_pos ⟨rfl, rfl, rfl⟩, hblank]
    exact (Builder.parse_empty c.builder).symm
  · rw [if_neg fun hall => hempty hall.2.2]
    show (c.parse text >>= fun arg => c.builder.node "" [arg]) = c.parse text
    cases hparse : c.parse text with
    | error e => rfl
    | ok f => exact Builder.node_of_apply (grouped_of_parse hparse)

/-- Over every catalog, any number of parentheses around a text with tokens makes no difference: it is
read as the same formula, or fails with the same error. -/
theorem parse_enclose (c : Catalog) {text : String} {ts : List Token}
    (h : Token.lex text = .ok ts) (n : Nat) : c.parse (enclose^[n] text) = c.parse text := by
  induction n with
  | zero => rfl
  | succ n ih =>
    obtain ⟨us, hus⟩ := Token.lex_enclose_iterate h n
    rw [Function.iterate_succ_apply', parse_enclose_once c hus, ih]

theorem twice_enclosed_same :
    standard.parse (enclose^[2] "1, ") = .ok (.app .comma [.const 1, .blank]) ∧
      empty.parse (enclose^[2] "1, ") = .error (.rejected (.unknown ",")) := by
  have hlex : Token.lex "1, " = .ok [.operand (.num "1"), .op .comma] := by with_unfolding_all rfl
  have hlist : standard.parse "1, " = .ok (.app .comma [.const 1, .blank]) := by with_unfolding_all rfl
  have hunknown : empty.parse "1, " = .error (.rejected (.unknown ",")) := by with_unfolding_all rfl
  exact ⟨(parse_enclose standard hlex 2).trans hlist, (parse_enclose empty hlex 2).trans hunknown⟩

end Catalog

end FormulaGrid
