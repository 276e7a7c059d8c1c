import FormulaGrid.Text.Blank
import FormulaGrid.Token.Basic

/-!
# Token.Lexer — from text to tokens

`Token.next` reads one token off a text that does not start with a blank, `Token.lex` the tokens of
a whole text.  What a token is read from is its own text (`text_append_of_next`), so the inside of
a span is shorter than the text the span stands in (`length_contents_lt_of_mem_lex`).
-/

namespace FormulaGrid

/-- Why a text has no tokens; a position counts the UTF-8 bytes before the culprit. -/
inductive LexError where
  /-- A parenthesis without its partner. -/
  | unbalanced (position : Nat)
  /-- A character that starts no token. -/
  | unexpected (c : Char) (position : Nat)
  deriving DecidableEq, Repr

/-- The wording of a lexical error. -/
def LexError.message : LexError → String
  | unbalanced p => "Unbalanced parentheses at position " ++ p.repr
  | unexpected c p => "Unexpected character '" ++ c.toString ++ "' at position " ++ p.repr

/-- The bytes a text takes in UTF-8. -/
def byteCount : List Char → Nat
  | [] => 0
  | c :: cs => c.utf8Size + byteCount cs

@[simp] theorem byteCount_nil : byteCount [] = 0 := rfl

@[simp] theorem byteCount_cons (c : Char) (cs : List Char) :
    byteCount (c :: cs) = c.utf8Size + byteCount cs := rfl

@[simp] theorem byteCount_append (as bs : List Char) :
    byteCount (as ++ bs) = byteCount as + byteCount bs := by
  induction as with
  | nil => simp
  | cons c as ih => simp [ih, Nat.add_assoc]

/-- A character that continues a name. -/
def isNameChar (c : Char) : Bool := c.isAlphanum || c == '_'

namespace Token

/-- The text up to the parenthesis that closes `depth + 1` open ones, and the text after it. -/
def splitSpan (depth : Nat) : List Char → Option (List Char × List Char)
  | [] => none
  | ')' :: cs =>
    match depth with
    | 0 => some ([], cs)
    | depth + 1 => (splitSpan depth cs).map fun (inside, rest) => (')' :: inside, rest)
  | '(' :: cs => (splitSpan (depth + 1) cs).map fun (inside, rest) => ('(' :: inside, rest)
  | c :: cs => (splitSpan depth cs).map fun (inside, rest) => (c :: inside, rest)

/-- The span under `name` whose opening parenthesis stands at `position`, right before `cs`. -/
def nextSpan (position : Nat) (name cs : List Char) : Except LexError (Token × List Char) :=
  match splitSpan 0 cs with
  | some (inside, rest) => .ok (.span (String.ofList name) (String.ofList inside), rest)
  | none => .error (.unbalanced position)

/-- The token that `c :: cs` starts with, and the text after it. -/
def next (position : Nat) (c : Char) (cs : List Char) : Except LexError (Token × List Char) :=
  if c.isDigit then
    let digits := c :: cs.takeWhile Char.isDigit
    .ok (.operand (.num (String.ofList digits)), cs.dropWhile Char.isDigit)
  else if c.isAlpha then
    let name := c :: cs.takeWhile isNameChar
    match cs.dropWhile isNameChar with
    | '(' :: rest => nextSpan (position + byteCount name) name rest
    | rest => .ok (.operand (.ref (String.ofList name)), rest)
  else if c = '(' then nextSpan position [] cs
  else if c = ')' then .error (.unbalanced position)
  else
    match Symbol.ofChar? c with
    | some s => .ok (.op s, cs)
    | none => .error (.unexpected c position)

/-! ### A token is read from its own text -/

theorem append_of_splitSpan {cs : List Char} {depth : Nat} {inside rest : List Char}
    (h : splitSpan depth cs = some (inside, rest)) : inside ++ ')' :: rest = cs := by
  fun_induction splitSpan depth cs generalizing inside with
  | case1 => cases h
  | case2 cs => cases h; rfl
  | case3 cs depth ih | case4 depth cs ih | case5 depth c cs _ _ ih =>
    obtain ⟨⟨inside', rest'⟩, h', e⟩ := Option.map_eq_some_iff.1 h
    cases e
    simp [ih h']

theorem text_append_of_nextSpan {position : Nat} {name cs rest : List Char} {t : Token}
    (h : nextSpan position name cs = .ok (t, rest)) : t.text ++ rest = name ++ '(' :: cs := by
  unfold nextSpan at h
  split at h
  next inside rest' e =>
    cases h
    simp [text, append_of_splitSpan e]
  next => cases h

theorem text_append_of_next {position : Nat} {c : Char} {cs rest : List Char} {t : Token}
    (h : next position c cs = .ok (t, rest)) : t.text ++ rest = c :: cs := by
  unfold next at h
  split at h
  next =>
    cases h
    simp [text, Operand.text]
  split at h
  next =>
    dsimp only at h
    split at h
    next rest' e =>
      rw [text_append_of_nextSpan h, ← e, List.cons_append, List.takeWhile_append_dropWhile]
    next =>
      cases h
      simp [text, Operand.text]
  split at h
  next hc =>
    rw [text_append_of_nextSpan h, hc, List.nil_append]
  split at h
  next => cases h
  split at h
  next s hs =>
    cases h
    simp [text, (Symbol.ofChar?_eq_some_iff.1 hs)]
  next => cases h

theorem length_text_pos_of_next {position : Nat} {c : Char} {cs rest : List Char} {t : Token}
    (h : next position c cs = .ok (t, rest)) : 0 < t.text.length := by
  unfold next at h
  grind [nextSpan, Operand.text, text, String.toList_ofList]

theorem length_rest_lt_of_next {position : Nat} {c : Char} {cs rest : List Char} {t : Token}
    (h : next position c cs = .ok (t, rest)) : rest.length < (c :: cs).length := by
  have := length_text_pos_of_next h
  rw [← text_append_of_next h, List.length_append]
  omega

/-! ### Whole texts -/

/-- The tokens of a text whose first character stands at `position`. -/
def lexFrom (position : Nat) : List Char → Except LexError (List Token)
  | [] => .ok []
  | c :: cs =>
    if isBlank c then lexFrom (position + c.utf8Size) cs
    else
      match _h : next position c cs with
      | .ok (t, rest) => (lexFrom (position + byteCount t.text) rest).map (t :: ·)
      | .error e => .error e
termination_by cs => cs.length
decreasing_by
  · simp
  · exact length_rest_lt_of_next _h

/-- The tokens of a text, in order. -/
def lex (text : String) : Except LexError (List Token) := lexFrom 0 text.toList

theorem length_text_le_of_mem_lexFrom {position : Nat} {cs : List Char} {ts : List Token}
    {t : Token} (h : lexFrom position cs = .ok ts) (ht : t ∈ ts) : t.text.length ≤ cs.length := by
  fun_induction lexFrom position cs generalizing ts with
  | case1 => cases h; cases ht
  | case2 position c cs _ ih => exact Nat.le_succ_of_le (ih h ht)
  | case3 position c cs _ u rest e ih =>
    have len := congrArg List.length (text_append_of_next e)
    rw [List.length_append] at len
    cases hr : lexFrom (position + byteCount u.text) rest with
    | error => simp [hr, Except.map] at h
    | ok us =>
      simp only [hr, Except.map, Except.ok.injEq] at h
      subst h
      rcases List.mem_cons.1 ht with rfl | ht
      · omega
      · have := ih hr ht
        omega
  | case4 => cases h

/-- The inside of each span of a text is shorter than the text. -/
theorem length_contents_lt_of_mem_lex {text name contents : String} {ts : List Token}
    (h : lex text = .ok ts) (ht : span name contents ∈ ts) : contents.length < text.length := by
  have h1 := length_contents_lt name contents
  have h2 := length_text_le_of_mem_lexFrom h ht
  rw [String.length_toList] at h2
  omega

end Token

end FormulaGrid
