import FormulaGrid.Builder.Grammar
import FormulaGrid.Builder.Outline
import FormulaGrid.Proofs.Success

/-!
# Proofs.Rebuild — every builder reads the same tree

The free builder makes trees and refuses nothing.  Any other builder reads a text as the tree of that text
made again with its own nodes, from the leaves up, and fails with its first refusal; where a text has no
tree, no builder reads it (`parse_eq_rebuild`).
-/

namespace FormulaGrid

/-- What formula text is read into when operations are mere names. -/
inductive Term where
  | blank
  | constant (n : Int64)
  | reference (name : String)
  | apply (name : String) (args : List Term)

namespace Builder

/-- The builder of trees, which refuses nothing. -/
def free : Builder Term := ⟨.blank, .constant, .reference, fun name args => .ok (.apply name args)⟩

variable {α : Type} (b : Builder α)

mutual

/-- A tree made again: the arguments of an operation from left to right, and then the operation. -/
def rebuild : Term → Except BuildError α
  | .blank => .ok b.blank
  | .constant n => .ok (b.constant n)
  | .reference name => .ok (b.reference name)
  | .apply name args => do
    let nodes ← rebuildAll args
    b.apply name nodes

/-- Trees made again, from left to right. -/
def rebuildAll : List Term → Except BuildError (List α)
  | [] => .ok []
  | t :: ts => do
    let node ← rebuild t
    let nodes ← rebuildAll ts
    return node :: nodes

end

/-- `y` is what the trees `x` come to when they are made again: the nodes or the first refusal.  Where
there are no trees, `y` fails like `x` or with a refusal. -/
def Follows {τ β : Type} (remake : τ → Except BuildError β) (x : Except ParseError τ)
    (y : Except ParseError β) : Prop :=
  match x with
  | .ok t => y = (remake t).mapError ParseError.rejected
  | .error e => y = .error e ∨ ∃ r, y = .error (.rejected r)

/-! ### Steps of the grammar -/

section

variable {τ β : Type} {remake : τ → Except BuildError β} {y : Except ParseError β}

theorem follows_ok_iff {t : τ} :
    Follows remake (.ok t) y ↔ y = (remake t).mapError ParseError.rejected := Iff.rfl

theorem follows_error_iff {e : ParseError} :
    Follows remake (.error e) y ↔ y = .error e ∨ ∃ r, y = .error (.rejected r) := Iff.rfl

theorem follows_error (e : ParseError) : Follows remake (.error e) (.error e) := .inl rfl

/-- A refusal is right for trees that are refused, and where there are none. -/
theorem follows_rejected {x : Except ParseError τ} {r : BuildError}
    (h : ∀ t, x = .ok t → remake t = .error r) : Follows remake x (.error (.rejected r)) := by
  cases x with
  | error e => exact .inr ⟨r, rfl⟩
  | ok t => rw [follows_ok_iff, h t rfl, Except.mapError_error]

end

variable {b}

theorem rebuildAll_cons (t : Term) (ts : List Term) :
    b.rebuildAll (t :: ts) =
      match b.rebuild t with
      | .error r => .error r
      | .ok node => (b.rebuildAll ts).map (node :: ·) := by
  rw [rebuildAll]
  cases b.rebuild t with
  | error r => rfl
  | ok node => cases b.rebuildAll ts <;> rfl

/-- Lists of nodes are made one node at a time. -/
theorem Follows.cons {x : Except ParseError Term} {y : Except ParseError α}
    {xs : Except ParseError (List Term)} {ys : Except ParseError (List α)}
    (h : Follows b.rebuild x y) (hs : Follows b.rebuildAll xs ys) :
    Follows b.rebuildAll (do let t ← x; let ts ← xs; pure (t :: ts))
      (do let node ← y; let nodes ← ys; pure (node :: nodes)) := by
  cases x with
  | error e =>
    rcases follows_error_iff.mp h with rfl | ⟨r, rfl⟩
    · exact follows_error e
    · exact follows_rejected fun _ ht => nomatch ht
  | ok t =>
    obtain rfl := follows_ok_iff.mp h
    cases ht : b.rebuild t with
    | error r =>
      -- the first node is refused, so what comes after it does not matter
      refine follows_rejected fun ts' hts => ?_
      obtain ⟨ts, -, rfl⟩ : ∃ ts, xs = .ok ts ∧ t :: ts = ts' := Except.map_eq_ok_iff.mp hts
      rw [rebuildAll_cons, ht]
    | ok node =>
      cases xs with
      | error e =>
        rcases follows_error_iff.mp hs with rfl | ⟨r, rfl⟩
        · exact follows_error e
        · exact follows_rejected fun _ hts => nomatch hts
      | ok ts =>
        obtain rfl := follows_ok_iff.mp hs
        refine follows_ok_iff.mpr ?_
        rw [rebuildAll_cons, ht]
        cases b.rebuildAll ts <;> rfl

/-- An operation is made after its arguments. -/
theorem Follows.node {xs : Except ParseError (List Term)} {ys : Except ParseError (List α)}
    (h : Follows b.rebuildAll xs ys) (name : String) :
    Follows b.rebuild (xs >>= free.node name) (ys >>= b.node name) := by
  cases xs with
  | error e =>
    rcases follows_error_iff.mp h with rfl | ⟨r, rfl⟩
    · exact follows_error e
    · exact follows_rejected fun _ ht => nomatch ht
  | ok ts =>
    obtain rfl := follows_ok_iff.mp h
    refine follows_ok_iff.mpr ?_
    rw [rebuild]
    cases b.rebuildAll ts <;> rfl

theorem follows_nil : Follows b.rebuildAll (pure []) (pure []) := by
  refine follows_ok_iff.mpr ?_
  rw [rebuildAll]
  rfl

theorem follows_blank : Follows b.rebuild (.ok free.blank) (.ok b.blank) := by
  refine follows_ok_iff.mpr ?_
  rw [free, rebuild]
  rfl

theorem Follows.node_one {x : Except ParseError Term} {y : Except ParseError α}
    (h : Follows b.rebuild x y) (name : String) :
    Follows b.rebuild (do let t ← x; free.node name [t]) (do let node ← y; b.node name [node]) := by
  have hone := (h.cons follows_nil).node name
  cases x <;> cases y <;> exact hone

theorem Follows.node_two {x x' : Except ParseError Term} {y y' : Except ParseError α}
    (h : Follows b.rebuild x y) (h' : Follows b.rebuild x' y') (name : String) :
    Follows b.rebuild (do let t ← x; let t' ← x'; free.node name [t, t'])
      (do let node ← y; let node' ← y'; b.node name [node, node']) := by
  have htwo := (h.cons (h'.cons follows_nil)).node name
  cases x <;> cases x' <;> cases y <;> cases y' <;> exact htwo

/-! ### Texts -/

theorem follows_ofOperands (held : List Operand) :
    Follows b.rebuild (free.ofOperands held) (b.ofOperands held) := by
  match held with
  | [] => exact follows_blank
  | [.ref name] =>
    refine follows_ok_iff.mpr ?_
    rw [free, rebuild]
    rfl
  | [.num digits] =>
    simp only [ofOperands]
    cases Decimal.toInt64? digits.toList with
    | none => exact follows_error _
    | some n =>
      refine follows_ok_iff.mpr ?_
      rw [free, rebuild]
      rfl
  | _ :: _ :: _ =>
    simp only [ofOperands]
    exact follows_error _

section

variable {f : String → Except ParseError Term} {g : String → Except ParseError α}
  (hinner : ∀ contents, Follows b.rebuild (f contents) (g contents))

include hinner

theorem follows_ofChain (k : Chain) : Follows b.rebuild (free.ofChain f k) (b.ofChain g k) := by
  induction k with
  | last held => exact follows_ofOperands held
  | op held symbol rest ih =>
    rw [ofChain, ofChain]
    split
    next => exact follows_blank.node_one symbol.name
    next => exact (follows_ofOperands held).node_two ih symbol.name
  | span held name contents rest =>
    rw [ofChain, ofChain]
    split
    next => exact follows_blank.node_one ""
    next => exact (hinner contents).node_one name

theorem follows_mapM (parts : List (List Token)) :
    Follows b.rebuildAll (parts.mapM fun part => free.ofChain f (.ofTokens part))
      (parts.mapM fun part => b.ofChain g (.ofTokens part)) := by
  induction parts with
  | nil => exact follows_nil
  | cons part parts ih =>
    rw [List.mapM_cons, List.mapM_cons]
    exact (follows_ofChain hinner (.ofTokens part)).cons ih

theorem follows_ofTokens (ts : List Token) :
    Follows b.rebuild (free.ofTokens f ts) (b.ofTokens g ts) := by
  unfold ofTokens
  split
  next only _ => exact follows_ofChain hinner (.ofTokens only)
  next first others _ _ => exact (follows_mapM hinner (first :: others)).node Symbol.comma.name

end

theorem follows_parse (text : String) : Follows b.rebuild (free.parse text) (b.parse text) := by
  rw [parse, parse]
  cases Token.lex text with
  | error e => exact follows_error _
  | ok ts =>
    refine follows_ofTokens (fun inside => ?_) ts
    split
    next => exact follows_parse inside
    next => exact follows_blank
termination_by text.length

/-- If a text has a tree, a builder reads the text as that tree made again with its nodes, or fails with
the first refusal on the way.  If the text has none, a builder fails for the same reason or with a
refusal. -/
theorem parse_eq_rebuild (b : Builder α) (text : String) :
    (∀ t, free.parse text = .ok t → b.parse text = (b.rebuild t).mapError .rejected) ∧
      ∀ e, free.parse text = .error e →
        b.parse text = .error e ∨ ∃ r, b.parse text = .error (.rejected r) := by
  have h := follows_parse (b := b) text
  constructor
  · intro t ht
    rw [ht] at h
    exact follows_ok_iff.mp h
  · intro e he
    rw [he] at h
    exact follows_error_iff.mp h

/-- A difference with a call on its right. -/
def minusCall : Term := .apply "-" [.reference "A", .apply "F" [.constant 1]]

theorem outline_rebuilds :
    free.parse "A - F(1)" = .ok minusCall ∧
      (outline ["F"]).parse "A - F(1)" = .error (.rejected (.unknown "F")) ∧
      ((outline ["F"]).parse "F(1), 2 3" = .error (.noOperator ["2", "3"]) ∨
        ∃ r, (outline ["F"]).parse "F(1), 2 3" = .error (.rejected r)) := by
  have htree : free.parse "A - F(1)" = .ok minusCall := by with_unfolding_all rfl
  have hnone : free.parse "F(1), 2 3" = .error (.noOperator ["2", "3"]) := by with_unfolding_all rfl
  have hrefused : (outline ["F"]).rebuild minusCall = .error (.unknown "F") := by with_unfolding_all rfl
  have hparse := (parse_eq_rebuild (outline ["F"]) "A - F(1)").1 minusCall htree
  rw [hrefused] at hparse
  exact ⟨htree, hparse, (parse_eq_rebuild (outline ["F"]) "F(1), 2 3").2 _ hnone⟩

end Builder

end FormulaGrid
