import FormulaGrid.Builder.Basic
import FormulaGrid.Text.Decimal
import FormulaGrid.Token.Chain

/-!
# Builder.Grammar — reading formula text

`Builder.parse` reads a text into a node.  The first operator of a comma-free part takes what is
left of it and all that is right of it, so operators group to the right whatever they are; a span
that comes before any operator stands for its whole part.  Commas join parts under the operator
`,`, and the inside of a span is a text of its own (`parse_eq`).
-/

namespace FormulaGrid.Builder

variable {α : Type} (b : Builder α)

/-- A node of the operation `name`, or the builder's refusal. -/
def node (name : String) (args : List α) : Except ParseError α :=
  (b.apply name args).mapError .rejected

/-- The node of operands with no operator among them: at most one may stand there. -/
def ofOperands : List Operand → Except ParseError α
  | [] => .ok b.blank
  | [.ref name] => .ok (b.reference name)
  | [.num digits] =>
    match Decimal.toInt64? digits.toList with
    | some n => .ok (b.constant n)
    | none => .error (.constant digits)
  | held => .error (.noOperator (held.map Operand.text))

/-- The node of a comma-free part, where `inner` reads the inside of a span.  An operator alone in
its part has one blank argument, and an empty span alone in its part is a span without a name.  A
span hides the rest of its part. -/
def ofChain (inner : String → Except ParseError α) : Chain → Except ParseError α
  | .last held => b.ofOperands held
  | .op held symbol rest =>
    if held = [] ∧ rest = .last [] then b.node symbol.name [b.blank]
    else do
      let left ← b.ofOperands held
      let right ← ofChain inner rest
      b.node symbol.name [left, right]
  | .span held name contents rest =>
    if held = [] ∧ rest = [] ∧ contents = "" then b.node "" [b.blank]
    else do
      let arg ← inner contents
      b.node name [arg]

/-- The node of a token list: its only part, or its parts under a comma. -/
def ofTokens (inner : String → Except ParseError α) (ts : List Token) : Except ParseError α :=
  match Token.parts ts with
  | (only, []) => b.ofChain inner (.ofTokens only)
  | (first, others) => do
    let args ← (first :: others).mapM fun part => b.ofChain inner (.ofTokens part)
    b.node Symbol.comma.name args

/-- The node of a formula text.  Insides of spans are shorter than the text, so the bound on their
length never bites. -/
def parse (text : String) : Except ParseError α :=
  match Token.lex text with
  | .error e => .error (.lexical e)
  | .ok ts =>
    b.ofTokens (fun inside => if inside.length < text.length then parse inside else pure b.blank) ts
termination_by text.length

/-! ### The inside of a span is read as a text -/

theorem ofChain_congr {f g : String → Except ParseError α} {k : Chain}
    (h : ∀ name contents, Token.span name contents ∈ k.toTokens → f contents = g contents) :
    b.ofChain f k = b.ofChain g k := by
  induction k with
  | last held => rfl
  | op held symbol rest ih =>
    have := ih fun name contents hm => h name contents (by simp [Chain.toTokens, hm])
    simp only [ofChain, this]
  | span held name contents rest =>
    have := h name contents (by simp [Chain.toTokens])
    simp only [ofChain, this]

theorem mapM_ofChain_congr {f g : String → Except ParseError α} {ps : List (List Token)}
    (h : ∀ p ∈ ps, ∀ name contents, Token.span name contents ∈ p → f contents = g contents) :
    ps.mapM (fun p => b.ofChain f (.ofTokens p)) = ps.mapM fun p => b.ofChain g (.ofTokens p) := by
  induction ps with
  | nil => rfl
  | cons p ps ih =>
    rw [List.mapM_cons, List.mapM_cons, ih fun q hq => h q (.tail _ hq),
      b.ofChain_congr fun name contents hm => h p (.head _) name contents (by simpa using hm)]

theorem ofTokens_congr {f g : String → Except ParseError α} {ts : List Token}
    (h : ∀ name contents, Token.span name contents ∈ ts → f contents = g contents) :
    b.ofTokens f ts = b.ofTokens g ts := by
  have h' : ∀ p ∈ (Token.parts ts).1 :: (Token.parts ts).2, ∀ name contents,
      Token.span name contents ∈ p → f contents = g contents :=
    fun p hp name contents hm => h name contents (Token.mem_of_mem_parts hp hm)
  unfold ofTokens
  split
  next only e =>
    rw [e] at h'
    refine b.ofChain_congr fun name contents hm => ?_
    exact h' only (.head _) name contents (by simpa using hm)
  next first others _ e =>
    rw [e] at h'
    rw [b.mapM_ofChain_congr h']

/-- A text is cut into tokens, and the insides of its spans are read in the same way. -/
theorem parse_eq (text : String) :
    b.parse text =
      match Token.lex text with
      | .error e => .error (.lexical e)
      | .ok ts => b.ofTokens b.parse ts := by
  rw [parse]
  split
  next => rfl
  next ts h =>
    exact b.ofTokens_congr fun name contents hm =>
      if_pos (Token.length_contents_lt_of_mem_lex h hm)

end FormulaGrid.Builder
