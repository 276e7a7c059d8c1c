import FormulaGrid.Builder.Grammar
import FormulaGrid.Builder.Outline
import FormulaGrid.Proofs.Culprit

/-!
# Proofs.Nesting — what stands inside of spans

The inside of a span is balanced, and a balanced text never fails for a parenthesis without a partner
(`Token.lex_ne_unbalanced`).  A text is read as a node by reading the insides of its spans, so a lexical
error is that of the text or of a text nested in it (`Builder.exists_nested_of_parse`).  Together,
parentheses without partners are found on the whole text or not at all
(`Builder.parse_eq_unbalanced_iff`).
-/

namespace FormulaGrid

namespace Token

/-- The first text stands in spans of the second one, at any depth. -/
def Nested : String → String → Prop := Relation.TransGen Inside

theorem balanced_of_inside {contents text : String} (h : Inside contents text) :
    Balanced contents.toList := by
  obtain ⟨name, ts, hts, hm⟩ := h
  exact level_iff_balanced.mp (valid_of_lex hts _ hm).2

theorem balanced_of_nested {contents text : String} (h : Nested contents text) :
    Balanced contents.toList := by
  obtain ⟨middle, hinside, -⟩ := Relation.TransGen.head'_iff.mp h
  exact balanced_of_inside hinside

/-- In a balanced text every parenthesis has its partner. -/
theorem lex_ne_unbalanced {text : String} (h : Balanced text.toList) (p : Nat) :
    lex text ≠ .error (.unbalanced p) := by
  intro hlex
  obtain ⟨as, c, bs, htext, ⟨ts, has⟩, -, hcause⟩ := exists_culprit hlex
  obtain ⟨hall, hpre⟩ := h
  obtain ⟨hbefore, -⟩ := level_iff_balanced.mp has.level
  rw [htext] at hall hpre
  rcases hcause with ⟨-, heq | ⟨rfl, -⟩⟩ | ⟨rfl, -, hnone⟩
  · cases heq
  · -- the text up to the parenthesis closes one more than it opens
    have hclose := hpre (as ++ [')']) ⟨bs, by simp⟩
    simp at hclose
    omega
  · have hafter := splitSpan_eq_none_iff.mp hnone bs (List.prefix_refl bs)
    simp at hall
    omega

end Token

namespace Builder

variable {α : Type} {b : Builder α} {inner : String → Except ParseError α} {e : LexError}

/-! ### Where a lexical error comes from -/

theorem node_ne_lexical (name : String) (args : List α) : b.node name args ≠ .error (.lexical e) := by
  intro h
  obtain ⟨r, -, hr⟩ := Except.mapError_eq_error_iff.mp h
  cases hr

theorem ofOperands_ne_lexical (held : List Operand) : b.ofOperands held ≠ .error (.lexical e) := by
  intro h
  unfold ofOperands at h
  split at h
  next => cases h
  next => cases h
  next => split at h <;> cases h
  next => cases h

theorem exists_span_of_ofChain {k : Chain} (h : b.ofChain inner k = .error (.lexical e)) :
    ∃ name contents, Token.span name contents ∈ k.toTokens ∧
      inner contents = .error (.lexical e) := by
  induction k with
  | last held => exact absurd h (ofOperands_ne_lexical held)
  | op held symbol rest ih =>
    rw [ofChain] at h
    split at h
    · exact absurd h (node_ne_lexical _ _)
    · rcases Except.bind_eq_error_iff.mp h with hl | ⟨l, -, h⟩
      · exact absurd hl (ofOperands_ne_lexical held)
      rcases Except.bind_eq_error_iff.mp h with hr | ⟨r, -, h⟩
      · obtain ⟨name, contents, hm, he⟩ := ih hr
        exact ⟨name, contents, by simp [Chain.toTokens, hm], he⟩
      · exact absurd h (node_ne_lexical _ _)
  | span held name contents rest =>
    rw [ofChain] at h
    split at h
    · exact absurd h (node_ne_lexical _ _)
    · rcases Except.bind_eq_error_iff.mp h with he | ⟨a, -, h⟩
      · exact ⟨name, contents, by simp [Chain.toTokens], he⟩
      · exact absurd h (node_ne_lexical _ _)

/-- A token list has a lexical error only from the inside of one of its spans. -/
theorem exists_span_of_ofTokens {ts : List Token} (h : b.ofTokens inner ts = .error (.lexical e)) :
    ∃ name contents, Token.span name contents ∈ ts ∧ inner contents = .error (.lexical e) := by
  have hpart : ∀ p ∈ (Token.parts ts).1 :: (Token.parts ts).2,
      b.ofChain inner (.ofTokens p) = .error (.lexical e) →
        ∃ name contents, Token.span name contents ∈ ts ∧ inner contents = .error (.lexical e) := by
    intro p hp he
    obtain ⟨name, contents, hm, he⟩ := exists_span_of_ofChain he
    rw [Chain.toTokens_ofTokens] at hm
    exact ⟨name, contents, Token.mem_of_mem_parts hp hm, he⟩
  unfold ofTokens at h
  split at h
  next only hparts => exact hpart only (by simp [hparts]) h
  next first others _ hparts =>
    rcases Except.bind_eq_error_iff.mp h with hargs | ⟨args, -, h⟩
    · obtain ⟨p, hp, he⟩ := Except.exists_of_mapM_eq_error hargs
      exact hpart p (by rwa [hparts]) he
    · exact absurd h (node_ne_lexical _ _)

/-- A lexical error is that of the text or of a text nested in it. -/
theorem exists_nested_of_parse {text : String} (h : b.parse text = .error (.lexical e)) :
    Token.lex text = .error e ∨ ∃ inside, Token.Nested inside text ∧ Token.lex inside = .error e := by
  induction text using Token.wellFounded_inside.induction with
  | _ text ih =>
    rw [parse_eq] at h
    split at h
    next e' he =>
      cases h
      exact .inl he
    next ts hts =>
      obtain ⟨name, contents, hm, hinner⟩ := exists_span_of_ofTokens h
      have hinside : Token.Inside contents text := ⟨name, ts, hts, hm⟩
      rcases ih contents hinside hinner with he | ⟨inside, hnested, he⟩
      · exact .inr ⟨contents, .single hinside, he⟩
      · exact .inr ⟨inside, hnested.tail hinside, he⟩

/-- Over every builder, a text is read with a parenthesis that has no partner exactly if its own tokens
cannot be read for this parenthesis.  No text nested in spans of it, at any depth, has a parenthesis without
a partner. -/
theorem parse_eq_unbalanced_iff (b : Builder α) (text : String) (p : Nat) :
    (b.parse text = .error (.lexical (.unbalanced p)) ↔ Token.lex text = .error (.unbalanced p)) ∧
      ∀ inside, Token.Nested inside text → ∀ q, Token.lex inside ≠ .error (.unbalanced q) := by
  have hnested : ∀ inside, Token.Nested inside text →
      ∀ q, Token.lex inside ≠ .error (.unbalanced q) :=
    fun inside h => Token.lex_ne_unbalanced (Token.balanced_of_nested h)
  refine ⟨⟨fun h => ?_, fun h => ?_⟩, hnested⟩
  · rcases exists_nested_of_parse h with hlex | ⟨inside, hin, hlex⟩
    · exact hlex
    · exact absurd hlex (hnested inside hin p)
  · rw [parse_eq, h]

theorem strayClose_found :
    (Token.lex "F(%) )" = .error (.unbalanced 5) ∧
      (outline []).parse "F(%) )" = .error (.lexical (.unbalanced 5))) ∧
    Token.Nested "%" "F((%), 2)" ∧ ∀ q, Token.lex "%" ≠ .error (.unbalanced q) := by
  have hstray : Token.lex "F(%) )" = .error (.unbalanced 5) := by with_unfolding_all rfl
  have houter : Token.Inside "(%), 2" "F((%), 2)" :=
    ⟨"F", [.span "F" "(%), 2"], by with_unfolding_all rfl, by simp⟩
  have hinner : Token.Inside "%" "(%), 2" :=
    ⟨"", [.span "" "%", .op .comma, .operand (.num "2")], by with_unfolding_all rfl, by simp⟩
  have hnested : Token.Nested "%" "F((%), 2)" := .tail (.single hinner) houter
  exact ⟨⟨hstray, (parse_eq_unbalanced_iff (outline []) _ 5).1.mpr hstray⟩, hnested,
    (parse_eq_unbalanced_iff (outline []) _ 0).2 _ hnested⟩

end Builder

end FormulaGrid
