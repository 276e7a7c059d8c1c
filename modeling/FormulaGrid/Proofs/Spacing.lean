import FormulaGrid.Builder.Grammar
import FormulaGrid.Catalog.Builder
import FormulaGrid.Proofs.Nesting

/-!
# Proofs.Spacing — texts with the same tokens at every depth

Texts are alike when their tokens have the same kinds and names, and the insides of their spans are alike in
turn; blanks between tokens may differ at every depth (`Token.alike_of_spaced`).  The grammar sees
insides only through what they are read as, so alike texts are read in the same way by every builder
(`Builder.parse_eq_of_alike`).
-/

namespace Except

variable {ε α β γ : Type}

theorem mapM_congr_of_forall₂ {f : α → Except ε γ} {g : β → Except ε γ} {as : List α} {bs : List β}
    (h : List.Forall₂ (fun a b => f a = g b) as bs) : as.mapM f = bs.mapM g := by
  induction h with
  | nil => rfl
  | cons hab _ ih => rw [List.mapM_cons, List.mapM_cons, hab, ih]

end Except

namespace FormulaGrid

namespace Token

/-- Tokens of the same kind and name.  Two spans both enclose nothing, or they enclose related texts. -/
inductive Like (R : String → String → Prop) : Token → Token → Prop
  | operand (o : Operand) : Like R (operand o) (operand o)
  | op (s : Symbol) : Like R (op s) (op s)
  | empty (name : String) : Like R (span name "") (span name "")
  | span (name : String) {c c' : String} (hc : c ≠ "") (hc' : c' ≠ "") (h : R c c') :
      Like R (span name c) (span name c')

/-- Texts whose tokens have one by one the same kinds and names, and whose spans both enclose nothing or
texts that are alike in turn. -/
inductive Alike : String → String → Prop
  | intro {text text' : String} {ts ts' : List Token} (h : lex text = .ok ts)
      (h' : lex text' = .ok ts') (hall : List.Forall₂ (Like Alike) ts ts') : Alike text text'

/-- Texts are alike if alike tokens are written in them in the same order, with any blanks between them. -/
theorem alike_of_spaced {lead lead' : List Char} {items items' : List (Token × List Char)}
    (hlead : Blanks lead) (hlead' : Blanks lead') (h : Spaced items) (h' : Spaced items')
    (hall : List.Forall₂ (Like Alike) (items.map Prod.fst) (items'.map Prod.fst)) :
    Alike (String.ofList (lead ++ spread items)) (String.ofList (lead' ++ spread items')) :=
  .intro ((lexes_of_spaced h).blanks hlead).lex_eq ((lexes_of_spaced h').blanks hlead').lex_eq hall

variable {R S : String → String → Prop} {ts us : List Token}

theorem forall₂_like_imp (h : List.Forall₂ (Like R) ts us)
    (himp : ∀ name c, span name c ∈ ts → ∀ c', R c c' → S c c') : List.Forall₂ (Like S) ts us := by
  induction h with
  | nil => exact .nil
  | cons hfirst _ ih =>
    refine .cons ?_ (ih fun name c hm => himp name c (by simp [hm]))
    cases hfirst with
    | operand o => exact .operand o
    | op s => exact .op s
    | empty name => exact .empty name
    | span name hc hc' hR => exact .span name hc hc' (himp name _ (by simp) _ hR)

theorem parts_like (h : List.Forall₂ (Like R) ts us) :
    List.Forall₂ (Like R) (parts ts).1 (parts us).1 ∧
      List.Forall₂ (List.Forall₂ (Like R)) (parts ts).2 (parts us).2 := by
  induction h with
  | nil => exact ⟨.nil, .nil⟩
  | @cons t u ts us hfirst _ ih =>
    by_cases ht : t = op .comma
    · subst ht
      cases hfirst
      exact ⟨.nil, .cons ih.1 ih.2⟩
    · have hu : u ≠ op .comma := by
        rintro rfl
        cases hfirst
        exact ht rfl
      rw [parts_cons ht, parts_cons hu]
      exact ⟨.cons hfirst ih.1, ih.2⟩

end Token

namespace Chain

variable {R : String → String → Prop}

/-- Chains of the same operands and operators, up to their ends or to spans that are alike.  What stands
after a span may be anything on both sides, or nothing. -/
inductive Like (R : String → String → Prop) : Chain → Chain → Prop
  | last (held : List Operand) : Like R (last held) (last held)
  | op (held : List Operand) (symbol : Symbol) {k k' : Chain} (h : Like R k k') :
      Like R (op held symbol k) (op held symbol k')
  | span (held : List Operand) {name c c' : String} {rest rest' : List Token}
      (h : Token.Like R (.span name c) (.span name c')) (hrest : rest = [] ↔ rest' = []) :
      Like R (span held name c rest) (span held name c' rest')

theorem Like.hold {k k' : Chain} (h : Like R k k') (o : Operand) : Like R (k.hold o) (k'.hold o) := by
  cases h with
  | last held => exact .last (o :: held)
  | op held symbol h => exact .op (o :: held) symbol h
  | span held h hrest => exact .span (o :: held) h hrest

theorem Like.eq_last_iff {k k' : Chain} (h : Like R k k') : k = .last [] ↔ k' = .last [] := by
  cases h <;> simp

theorem like_ofTokens {ts us : List Token} (h : List.Forall₂ (Token.Like R) ts us) :
    Like R (ofTokens ts) (ofTokens us) := by
  induction h with
  | nil => exact .last []
  | @cons t u ts us hfirst hrest ih =>
    have hnil : ts = [] ↔ us = [] := by
      rw [← List.length_eq_zero_iff, ← List.length_eq_zero_iff, hrest.length_eq]
    cases hfirst with
    | operand o => exact ih.hold o
    | op s => exact .op [] s ih
    | empty name => exact .span [] (.empty name) hnil
    | span name hc hc' hR => exact .span [] (.span name hc hc' hR) hnil

end Chain

namespace Builder

variable {α : Type} (b : Builder α) {inner : String → Except ParseError α}

/-- The grammar looks at the insides of spans only to see whether they are empty and what they are read
as. -/
theorem ofChain_like {k k' : Chain} (h : k.Like (fun c c' => inner c = inner c') k') :
    b.ofChain inner k = b.ofChain inner k' := by
  induction h with
  | last held => rfl
  | op held symbol hk ih => simp only [ofChain, ih, hk.eq_last_iff]
  | span held h hrest =>
    cases h with
    | empty name => simp only [ofChain, hrest]
    | span name hc hc' hinner => simp only [ofChain, hc, hc', and_false, if_false, hinner]

theorem ofTokens_like {ts us : List Token}
    (h : List.Forall₂ (Token.Like fun c c' => inner c = inner c') ts us) :
    b.ofTokens inner ts = b.ofTokens inner us := by
  obtain ⟨hfirst, hothers⟩ := Token.parts_like h
  have hpart : ∀ p q, List.Forall₂ (Token.Like fun c c' => inner c = inner c') p q →
      b.ofChain inner (.ofTokens p) = b.ofChain inner (.ofTokens q) :=
    fun p q hpq => b.ofChain_like (Chain.like_ofTokens hpq)
  unfold ofTokens
  rcases hts : Token.parts ts with ⟨p, ps⟩
  rcases hus : Token.parts us with ⟨q, qs⟩
  rw [hts, hus] at hfirst hothers
  cases hothers with
  | nil => exact hpart p q hfirst
  | cons hsecond hmore =>
    have hall := List.Forall₂.cons hfirst (.cons hsecond hmore)
    dsimp only
    rw [Except.mapM_congr_of_forall₂ (hall.imp hpart)]

/-- Texts that are alike are read as the same node or fail with the same error, over every builder. -/
theorem parse_eq_of_alike {text text' : String} (h : Token.Alike text text') (b : Builder α) :
    b.parse text = b.parse text' := by
  induction text using Token.wellFounded_inside.induction generalizing text' with
  | _ text ih =>
    obtain ⟨hts, hts', hall⟩ := h
    rw [parse_eq, parse_eq, hts, hts']
    refine b.ofTokens_like (Token.forall₂_like_imp hall fun name c hm c' halike => ?_)
    exact ih c ⟨name, _, hts, hm⟩ halike

theorem respaced_same :
    (Token.Alike "MEAN( (A0+1) ,2)-()" " MEAN((\tA0 + 1),2 ) -()" ∧
      Catalog.standard.builder.parse "MEAN( (A0+1) ,2)-()" =
        Catalog.standard.builder.parse " MEAN((\tA0 + 1),2 ) -()") ∧
    Token.Alike "F(1 2)" " F( 1\n2)" ∧
      (outline []).parse "F(1 2)" = (outline []).parse " F( 1\n2)" := by
  have hsum : Token.Alike "A0+1" "\tA0 + 1" := by
    have hlex : Token.lex "A0+1" =
        .ok [.operand (.ref "A0"), .op .plus, .operand (.num "1")] := by with_unfolding_all rfl
    have hlex' : Token.lex "\tA0 + 1" =
        .ok [.operand (.ref "A0"), .op .plus, .operand (.num "1")] := by with_unfolding_all rfl
    exact .intro hlex hlex' (.cons (.operand _) (.cons (.op _) (.cons (.operand _) .nil)))
  have hlist : Token.Alike " (A0+1) ,2" "(\tA0 + 1),2 " := by
    have hlex : Token.lex " (A0+1) ,2" =
        .ok [.span "" "A0+1", .op .comma, .operand (.num "2")] := by with_unfolding_all rfl
    have hlex' : Token.lex "(\tA0 + 1),2 " =
        .ok [.span "" "\tA0 + 1", .op .comma, .operand (.num "2")] := by with_unfolding_all rfl
    exact .intro hlex hlex' (.cons (.span "" (by decide) (by decide) hsum)
      (.cons (.op _) (.cons (.operand _) .nil)))
  have hmean : Token.Alike "MEAN( (A0+1) ,2)-()" " MEAN((\tA0 + 1),2 ) -()" := by
    have hlex : Token.lex "MEAN( (A0+1) ,2)-()" =
        .ok [.span "MEAN" " (A0+1) ,2", .op .minus, .span "" ""] := by with_unfolding_all rfl
    have hlex' : Token.lex " MEAN((\tA0 + 1),2 ) -()" =
        .ok [.span "MEAN" "(\tA0 + 1),2 ", .op .minus, .span "" ""] := by with_unfolding_all rfl
    exact .intro hlex hlex' (.cons (.span "MEAN" (by decide) (by decide) hlist)
      (.cons (.op _) (.cons (.empty "") .nil)))
  have hpair : Token.Alike "1 2" " 1\n2" := by
    have hlex : Token.lex "1 2" = .ok [.operand (.num "1"), .operand (.num "2")] := by with_unfolding_all rfl
    have hlex' : Token.lex " 1\n2" = .ok [.operand (.num "1"), .operand (.num "2")] := by with_unfolding_all rfl
    exact .intro hlex hlex' (.cons (.operand _) (.cons (.operand _) .nil))
  have hcall : Token.Alike "F(1 2)" " F( 1\n2)" := by
    have hlex : Token.lex "F(1 2)" = .ok [.span "F" "1 2"] := by with_unfolding_all rfl
    have hlex' : Token.lex " F( 1\n2)" = .ok [.span "F" " 1\n2"] := by with_unfolding_all rfl
    exact .intro hlex hlex' (.cons (.span "F" (by decide) (by decide) hpair) .nil)
  exact ⟨⟨hmean, parse_eq_of_alike hmean Catalog.standard.builder⟩, hcall,
    parse_eq_of_alike hcall (outline [])⟩

end Builder

end FormulaGrid
