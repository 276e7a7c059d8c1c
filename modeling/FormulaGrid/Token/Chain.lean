import FormulaGrid.Token.Basic

/-!
# Token.Chain — tokens cut at the first operator

Commas cut a token list into parts.  A chain is a part seen from its left end: some operands, then
nothing, or an operator with the chain after it, or a span.  There is no precedence, so the chain
is all the structure a part has (`toTokens_ofTokens`).
-/

namespace FormulaGrid

namespace Token

/-- The parts of a token list between its commas: the first one, and the others in order. -/
def parts : List Token → List Token × List (List Token)
  | [] => ([], [])
  | .op .comma :: ts => ([], (parts ts).1 :: (parts ts).2)
  | t :: ts => (t :: (parts ts).1, (parts ts).2)

@[simp] theorem parts_nil : parts [] = ([], []) := rfl

@[simp] theorem parts_comma (ts : List Token) :
    parts (.op .comma :: ts) = ([], (parts ts).1 :: (parts ts).2) := rfl

theorem parts_cons {t : Token} (h : t ≠ .op .comma) (ts : List Token) :
    parts (t :: ts) = (t :: (parts ts).1, (parts ts).2) := by
  rw [parts]
  exact h

theorem mem_of_mem_parts {t : Token} {ts p : List Token}
    (hp : p ∈ (parts ts).1 :: (parts ts).2) (ht : t ∈ p) : t ∈ ts := by
  fun_induction parts ts generalizing p with
  | case1 => simp_all
  | case2 ts ih =>
    rcases List.mem_cons.1 hp with rfl | hp
    · cases ht
    · exact .tail _ (ih hp ht)
  | case3 u ts _ ih =>
    rcases List.mem_cons.1 hp with rfl | hp
    · rcases List.mem_cons.1 ht with rfl | ht
      · exact .head _
      · exact .tail _ (ih (.head _) ht)
    · exact .tail _ (ih (.tail _ hp) ht)

end Token

/-- A comma-free token list, cut at its first operator or span. -/
inductive Chain where
  /-- Operands to the end. -/
  | last (held : List Operand)
  /-- Operands, an operator, and the chain after it. -/
  | op (held : List Operand) (symbol : Symbol) (rest : Chain)
  /-- Operands, a span, and the tokens after it. -/
  | span (held : List Operand) (name contents : String) (rest : List Token)
  deriving DecidableEq, Repr

namespace Chain

/-- A chain with one more operand in front. -/
def hold (o : Operand) : Chain → Chain
  | last held => last (o :: held)
  | op held s rest => op (o :: held) s rest
  | span held n c rest => span (o :: held) n c rest

/-- The chain of a token list. -/
def ofTokens : List Token → Chain
  | [] => last []
  | .operand o :: ts => (ofTokens ts).hold o
  | .op s :: ts => op [] s (ofTokens ts)
  | .span n c :: ts => span [] n c ts

/-- The tokens of a chain, in order. -/
def toTokens : Chain → List Token
  | last held => held.map .operand
  | op held s rest => held.map .operand ++ .op s :: rest.toTokens
  | span held n c rest => held.map .operand ++ .span n c :: rest

@[simp] theorem toTokens_hold (o : Operand) (k : Chain) :
    (k.hold o).toTokens = .operand o :: k.toTokens := by
  cases k <;> rfl

@[simp] theorem toTokens_ofTokens (ts : List Token) : (ofTokens ts).toTokens = ts := by
  fun_induction ofTokens ts <;> simp_all [toTokens]

end Chain

end FormulaGrid
