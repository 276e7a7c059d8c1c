/-!
# Token — the words of formula text

A token is an operand (the name of a cell or builtin, or a run of digits), an operator symbol, or a
span: text in parentheses under a name that may be empty.  The inside of a span stays raw text.
`Token.text` writes a token back as it stood.
-/

namespace FormulaGrid

/-- The characters that are operators, each a token on its own. -/
inductive Symbol where
  | plus | minus | times | divide | less | comma
  deriving DecidableEq, Repr

namespace Symbol

/-- The character a symbol is written with. -/
def char : Symbol → Char
  | plus => '+'
  | minus => '-'
  | times => '*'
  | divide => '/'
  | less => '<'
  | comma => ','

/-- The symbol written with a character. -/
def ofChar? : Char → Option Symbol
  | '+' => some plus
  | '-' => some minus
  | '*' => some times
  | '/' => some divide
  | '<' => some less
  | ',' => some comma
  | _ => none

/-- The operator's name, one character long. -/
def name (s : Symbol) : String := String.singleton s.char

@[simp] theorem ofChar?_char (s : Symbol) : ofChar? s.char = some s := by cases s <;> rfl

theorem ofChar?_eq_some_iff {c : Char} {s : Symbol} : ofChar? c = some s ↔ c = s.char := by
  refine ⟨fun h => ?_, fun h => h ▸ ofChar?_char s⟩
  unfold ofChar? at h
  split at h <;> cases h <;> rfl

end Symbol

/-- A token that is a node by itself. -/
inductive Operand where
  /-- The name of a cell or builtin. -/
  | ref (name : String)
  /-- A run of decimal digits, of any size. -/
  | num (digits : String)
  deriving DecidableEq, Repr

/-- The characters an operand is written with. -/
def Operand.text : Operand → String
  | ref n => n
  | num ds => ds

/-- A word of formula text. -/
inductive Token where
  | operand (o : Operand)
  | op (symbol : Symbol)
  /-- Text between matching parentheses, under the name written right before them. -/
  | span (name contents : String)
  deriving DecidableEq, Repr

namespace Token

/-- The part of a token that stands outside parentheses. -/
def name : Token → String
  | operand o => o.text
  | op s => s.name
  | span n _ => n

/-- The raw text inside a span. -/
def contents? : Token → Option String
  | span _ c => some c
  | _ => none

/-- The characters a token is written with. -/
def text : Token → List Char
  | operand o => o.text.toList
  | op s => [s.char]
  | span n c => n.toList ++ '(' :: (c.toList ++ [')'])

/-- The inside of a span is shorter than the span. -/
theorem length_contents_lt (n c : String) : c.length < (span n c).text.length := by
  simp [text, ← String.length_toList]
  omega

end Token

end FormulaGrid
