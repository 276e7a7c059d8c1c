import FormulaGrid.Builder.Outline
import FormulaGrid.Proofs.Reread

/-!
# Proofs.FirstOperator — how tokens without commas group

A token list without commas is a row of segments with operators between them, up to its end or its first
span.  Over a builder that never refuses, the operators nest to the right in the order they stand in,
each over the operand of its segment and what comes after it, and the end or the span is the innermost
node (`parse_eq_ok_iff_comb`).  What stands after the span is never looked at.
-/

namespace FormulaGrid

/-- A run of digits is not too large for 64 bits. -/
def Operand.Fits : Operand → Prop
  | ref _ => True
  | num digits => Decimal.toNat digits.toList < 0x8000000000000000

/-- There is one operand at most, and it fits. -/
def Sole (held : List Operand) : Prop := held.length ≤ 1 ∧ ∀ o ∈ held, o.Fits

/-- Segments of operands, each with the operator after it, and the tokens after them all. -/
def Token.weave (lead : List (List Operand × Symbol)) (tail : List Token) : List Token :=
  lead.foldr (fun seg ts => seg.1.map .operand ++ .op seg.2 :: ts) tail

namespace Builder

variable {α : Type} (b : Builder α)

/-- The node of a segment with one operand at most. -/
def leaf : List Operand → α
  | [] => b.blank
  | .ref name :: _ => b.reference name
  | .num digits :: _ => b.constant (Int64.ofNat (Decimal.toNat digits.toList))

variable (make : String → List α → α)

/-- Operators nested to the right, each over its segment and the next one, down to `tip`. -/
def comb (lead : List (List Operand × Symbol)) (tip : α) : α :=
  lead.foldr (fun seg right => make seg.2.name [b.leaf seg.1, right]) tip

/-- The comb of segments down to the last one.  An operator between two empty segments at the end has a
single blank argument. -/
def combToEnd (lead : List (List Operand × Symbol)) (last : List Operand) : α :=
  match lead.getLast?, last with
  | some ([], s), [] => b.comb make lead.dropLast (make s.name [b.blank])
  | _, _ => b.comb make lead (b.leaf last)

/-- The node of a span after some operands: a span that stands alone with nothing in it has no name. -/
def spanNode (held : List Operand) (name contents : String) (rest : List Token) (arg : α) : α :=
  if held = [] ∧ rest = [] ∧ contents = "" then make "" [b.blank] else make name [arg]

/-! ### Segments -/

theorem ofOperands_num (digits : String) :
    b.ofOperands [.num digits] =
      if Decimal.toNat digits.toList < 0x8000000000000000 then .ok (b.leaf [.num digits])
      else .error (.constant digits) := by
  rw [ofOperands, Decimal.toInt64?]
  split
  next n h =>
    split at h
    next hlt =>
      cases h
      rw [if_pos hlt, leaf]
    next => cases h
  next h =>
    split at h
    next => cases h
    next hge => rw [if_neg hge]

/-- A segment has a node exactly if it holds one operand at most, and one that fits. -/
theorem ofOperands_eq_ok_iff {held : List Operand} {v : α} :
    b.ofOperands held = .ok v ↔ Sole held ∧ v = b.leaf held := by
  match held with
  | [] => simp [ofOperands, Sole, leaf, eq_comm]
  | [.ref name] => simp [ofOperands, Sole, leaf, Operand.Fits, eq_comm]
  | [.num digits] =>
    rw [ofOperands_num]
    split
    next h => simp [Sole, Operand.Fits, h, eq_comm]
    next h => simp [Sole, Operand.Fits, h]
  | _ :: _ :: _ => simp [ofOperands, Sole]

theorem ofTokens_weave (lead : List (List Operand × Symbol)) (tail : List Token) :
    Chain.ofTokens (Token.weave lead tail) =
      lead.foldr (fun seg k => .op seg.1 seg.2 k) (Chain.ofTokens tail) := by
  induction lead with
  | nil => rfl
  | cons seg lead ih =>
    have hweave : Token.weave (seg :: lead) tail =
        seg.1.map .operand ++ .op seg.2 :: Token.weave lead tail := rfl
    rw [hweave, Formula.ofTokens_held_append, ih, List.foldr_cons]

/-- Every token list is a row of segments up to its end or to its first span. -/
theorem exists_weave (ts : List Token) :
    (∃ (lead : List (List Operand × Symbol)) (last : List Operand),
      ts = Token.weave lead (last.map .operand)) ∨
      ∃ (lead : List (List Operand × Symbol)) (held : List Operand) (name contents : String)
        (rest : List Token),
        ts = Token.weave lead (held.map .operand ++ .span name contents :: rest) := by
  induction ts with
  | nil => exact .inl ⟨[], [], rfl⟩
  | cons t ts ih =>
    cases t with
    | operand o =>
      -- the operand joins the first segment, which may be the last one too
      rcases ih with ⟨lead, last, rfl⟩ | ⟨lead, held, name, contents, rest, rfl⟩
      · cases lead with
        | nil => exact .inl ⟨[], o :: last, rfl⟩
        | cons seg lead => exact .inl ⟨(o :: seg.1, seg.2) :: lead, last, rfl⟩
      · cases lead with
        | nil => exact .inr ⟨[], o :: held, name, contents, rest, rfl⟩
        | cons seg lead =>
          exact .inr ⟨(o :: seg.1, seg.2) :: lead, held, name, contents, rest, rfl⟩
    | op s =>
      rcases ih with ⟨lead, last, rfl⟩ | ⟨lead, held, name, contents, rest, rfl⟩
      · exact .inl ⟨([], s) :: lead, last, rfl⟩
      · exact .inr ⟨([], s) :: lead, held, name, contents, rest, rfl⟩
    | span name contents => exact .inr ⟨[], [], name, contents, ts, rfl⟩

variable {b make}

theorem node_eq_of_make (hb : ∀ name args, b.apply name args = .ok (make name args)) (name : String)
    (args : List α) : b.node name args = .ok (make name args) := node_of_apply (hb name args)

/-- Operators in front of a chain are a comb over what the chain is read as, unless the last one stands
between nothing and nothing. -/
theorem ofChain_foldr_eq_ok_iff (hb : ∀ name args, b.apply name args = .ok (make name args))
    {inner : String → Except ParseError α} {lead : List (List Operand × Symbol)} {k : Chain}
    (hk : k = .last [] → ∀ seg ∈ lead.getLast?, seg.1 ≠ []) {v : α} :
    b.ofChain inner (lead.foldr (fun seg k => .op seg.1 seg.2 k) k) = .ok v ↔
      (∀ seg ∈ lead, Sole seg.1) ∧ ∃ tip, b.ofChain inner k = .ok tip ∧ v = b.comb make lead tip := by
  induction lead generalizing v with
  | nil => simp [comb, eq_comm]
  | cons seg lead ih =>
    have hrest : ¬(seg.1 = [] ∧ lead.foldr (fun seg k => Chain.op seg.1 seg.2 k) k = .last []) := by
      rintro ⟨hseg, hlast⟩
      cases lead with
      | nil => exact hk hlast seg (by simp) hseg
      | cons => cases hlast
    have hk' : k = .last [] → ∀ seg' ∈ lead.getLast?, seg'.1 ≠ [] := by
      intro hlast seg' hseg'
      refine hk hlast seg' ?_
      rw [List.getLast?_cons, Option.mem_def.mp hseg']
      rfl
    rw [List.foldr_cons, ofChain, if_neg hrest]
    simp only [Except.bind_eq_ok_iff, ofOperands_eq_ok_iff, ih hk', node_eq_of_make hb,
      List.forall_mem_cons, Except.ok.injEq]
    constructor
    · rintro ⟨l, ⟨hseg, rfl⟩, r, ⟨hlead, tip, htip, rfl⟩, rfl⟩
      exact ⟨⟨hseg, hlead⟩, tip, htip, rfl⟩
    · rintro ⟨⟨hseg, hlead⟩, tip, htip, rfl⟩
      exact ⟨_, ⟨hseg, rfl⟩, _, ⟨hlead, tip, htip, rfl⟩, rfl⟩

theorem combToEnd_of_blank (front : List (List Operand × Symbol)) (s : Symbol) :
    b.combToEnd make (front ++ [([], s)]) [] = b.comb make front (make s.name [b.blank]) := by
  simp [combToEnd]

theorem combToEnd_of_ne {lead : List (List Operand × Symbol)} {last : List Operand}
    (h : last = [] → ∀ seg ∈ lead.getLast?, seg.1 ≠ []) :
    b.combToEnd make lead last = b.comb make lead (b.leaf last) := by
  unfold combToEnd
  split
  next s hs => exact absurd rfl (h rfl _ hs)
  next => rfl

/-- Segments without spans are read as their comb, if each of them has a node. -/
theorem ofChain_to_end_eq_ok_iff (hb : ∀ name args, b.apply name args = .ok (make name args))
    {inner : String → Except ParseError α} (lead : List (List Operand × Symbol))
    (last : List Operand) {v : α} :
    b.ofChain inner (.ofTokens (Token.weave lead (last.map .operand))) = .ok v ↔
      (∀ seg ∈ lead, Sole seg.1) ∧ Sole last ∧ v = b.combToEnd make lead last := by
  rw [ofTokens_weave, Formula.ofTokens_held]
  by_cases hblank : last = [] ∧ ∃ s, lead.getLast? = some ([], s)
  · -- the last operator stands alone, so it is the tip of the comb of the operators before it
    obtain ⟨rfl, s, hs⟩ := hblank
    obtain ⟨front, rfl⟩ := List.getLast?_eq_some_iff.mp hs
    have hchain : b.ofChain inner (.op [] s (.last [])) = .ok (make s.name [b.blank]) := by
      rw [ofChain, if_pos ⟨rfl, rfl⟩, node_eq_of_make hb]
    have hsole : Sole [] := by simp [Sole]
    rw [List.foldr_append, List.foldr_cons, List.foldr_nil, ofChain_foldr_eq_ok_iff hb (by simp),
      hchain, combToEnd_of_blank]
    simp only [List.forall_mem_append, List.forall_mem_singleton, hsole, and_true, true_and,
      Except.ok.injEq, exists_eq_left']
  · have hne : last = [] → ∀ seg ∈ lead.getLast?, seg.1 ≠ [] := by
      rintro hlast ⟨held, s⟩ hseg rfl
      exact hblank ⟨hlast, s, hseg⟩
    have hk : Chain.last last = .last [] → ∀ seg ∈ lead.getLast?, seg.1 ≠ [] :=
      fun h => hne (Chain.last.inj h)
    rw [ofChain_foldr_eq_ok_iff hb hk, combToEnd_of_ne hne]
    simp only [ofChain, ofOperands_eq_ok_iff]
    refine and_congr_right fun _ => ⟨?_, ?_⟩
    · rintro ⟨tip, ⟨hlast, rfl⟩, rfl⟩
      exact ⟨hlast, rfl⟩
    · rintro ⟨hlast, rfl⟩
      exact ⟨_, ⟨hlast, rfl⟩, rfl⟩

theorem ofTokens_held_span (held : List Operand) (name contents : String) (rest : List Token) :
    Chain.ofTokens (held.map .operand ++ .span name contents :: rest) =
      .span held name contents rest := by
  induction held with
  | nil => rfl
  | cons o held ih => rw [List.map_cons, List.cons_append, Chain.ofTokens, ih, Chain.hold]

/-- Segments before a span are read as their comb over the node of the span, if each of them has a node
and the inside of the span has one. -/
theorem ofChain_to_span_eq_ok_iff (hb : ∀ name args, b.apply name args = .ok (make name args))
    {inner : String → Except ParseError α} (hempty : ∃ arg, inner "" = .ok arg)
    (lead : List (List Operand × Symbol)) (held : List Operand) (name contents : String)
    (rest : List Token) {v : α} :
    b.ofChain inner
        (.ofTokens (Token.weave lead (held.map .operand ++ .span name contents :: rest))) = .ok v ↔
      (∀ seg ∈ lead, Sole seg.1) ∧ ∃ arg, inner contents = .ok arg ∧
        v = b.comb make lead (b.spanNode make held name contents rest arg) := by
  rw [ofTokens_weave, ofTokens_held_span, ofChain_foldr_eq_ok_iff hb (by simp)]
  refine and_congr_right fun _ => ?_
  by_cases halone : held = [] ∧ rest = [] ∧ contents = ""
  · obtain ⟨arg, harg⟩ := hempty
    rw [ofChain, if_pos halone, node_eq_of_make hb, halone.2.2, harg]
    simp [spanNode, halone, eq_comm]
  · rw [ofChain, if_neg halone]
    simp only [Except.bind_eq_ok_iff, node_eq_of_make hb, spanNode, if_neg halone]
    constructor
    · rintro ⟨tip, ⟨arg, harg, htip⟩, rfl⟩
      exact ⟨arg, harg, by rw [Except.ok.inj htip]⟩
    · rintro ⟨arg, harg, rfl⟩
      exact ⟨_, ⟨arg, harg, rfl⟩, rfl⟩

/-! ### Texts -/

/-- Over a builder that never refuses, a text without commas between its tokens groups as follows.  Its
tokens are segments up to their end or to the first span.  In the first case there is a node exactly if
each segment has one operand at most and one that fits, and the node is the comb of the segments.  In the
second case this is asked of the segments before that of the span only, the inside of the span needs a
node, and the node is the comb of these segments over that of the span. -/
theorem parse_eq_ok_iff_comb (hb : ∀ name args, b.apply name args = .ok (make name args))
    {text : String} {ts : List Token} (hts : Token.lex text = .ok ts)
    (hcomma : Token.op .comma ∉ ts) :
    ((∃ (lead : List (List Operand × Symbol)) (last : List Operand),
        ts = Token.weave lead (last.map .operand)) ∨
      ∃ (lead : List (List Operand × Symbol)) (held : List Operand) (name contents : String)
        (rest : List Token),
        ts = Token.weave lead (held.map .operand ++ .span name contents :: rest)) ∧
    (∀ (lead : List (List Operand × Symbol)) (last : List Operand),
      ts = Token.weave lead (last.map .operand) → ∀ v, b.parse text = .ok v ↔
        (∀ seg ∈ lead, Sole seg.1) ∧ Sole last ∧ v = b.combToEnd make lead last) ∧
    (∀ (lead : List (List Operand × Symbol)) (held : List Operand) (name contents : String)
        (rest : List Token),
      ts = Token.weave lead (held.map .operand ++ .span name contents :: rest) →
      ∀ v, b.parse text = .ok v ↔
        (∀ seg ∈ lead, Sole seg.1) ∧ ∃ arg, b.parse contents = .ok arg ∧
          v = b.comb make lead (b.spanNode make held name contents rest arg)) := by
  have hparse : b.parse text = b.ofChain b.parse (.ofTokens ts) := by
    rw [parse_eq, hts]
    simp only [ofTokens, Token.parts_of_no_comma hcomma]
  refine ⟨exists_weave ts, ?_, ?_⟩
  · rintro lead last rfl v
    rw [hparse, ofChain_to_end_eq_ok_iff hb]
  · rintro lead held name contents rest rfl v
    rw [hparse, ofChain_to_span_eq_ok_iff hb ⟨_, parse_empty b⟩]

theorem outline_groups :
    (outline []).parse "1 + -" = .ok "+(1 -(_))" ∧
      (outline []).parse "A * + 7 F(2) - 9 9" = .ok "*(A +(_ F(2)))" := by
  let make (name : String) (args : List String) : String :=
    name ++ "(" ++ " ".intercalate args ++ ")"
  have hb : ∀ name args, (outline []).apply name args = .ok (make name args) :=
    fun _ _ => rfl
  constructor
  · have hlex : Token.lex "1 + -" = .ok [.operand (.num "1"), .op .plus, .op .minus] := by with_unfolding_all rfl
    obtain ⟨-, hend, -⟩ := parse_eq_ok_iff_comb hb hlex (by decide)
    have hfits : Decimal.toNat "1".toList < 0x8000000000000000 := by decide
    have hone : Sole [.num "1"] := ⟨Nat.le_refl 1, List.forall_mem_singleton.mpr hfits⟩
    have hempty : Sole [] := ⟨Nat.zero_le 1, by simp⟩
    refine (hend [([.num "1"], .plus), ([], .minus)] [] rfl _).mpr ⟨?_, hempty, ?_⟩
    · simp [hone, hempty]
    · decide
  · have hlex : Token.lex "A * + 7 F(2) - 9 9" =
        .ok [.operand (.ref "A"), .op .times, .op .plus, .operand (.num "7"), .span "F" "2",
          .op .minus, .operand (.num "9"), .operand (.num "9")] := by with_unfolding_all rfl
    have hinside : (outline []).parse "2" = .ok "2" := by with_unfolding_all rfl
    obtain ⟨-, -, hspan⟩ := parse_eq_ok_iff_comb hb hlex (by decide)
    refine (hspan [([.ref "A"], .times), ([], .plus)] [.num "7"] "F" "2"
      [.op .minus, .operand (.num "9"), .operand (.num "9")] rfl _).mpr ⟨?_, "2", hinside, ?_⟩
    · simp [Sole, Operand.Fits]
    · decide

end Builder

end FormulaGrid
