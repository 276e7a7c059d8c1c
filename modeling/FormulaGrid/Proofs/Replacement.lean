import FormulaGrid.Proofs.FirstOperator
import FormulaGrid.Proofs.Occurrence

/-!
# Proofs.Replacement — one span of a text replaced by another

A part is read up to its first span, so a span is read exactly if none stands before it in its part
(`Token.SpanFree`).  A span that is read is the last argument of the operators before it, and its part is
one argument of the comma.  So the node of the whole token list is made from that of the span by the
nodes around it, and these remain when another span is put in its place (`exists_plug_span`).  A span that
is not read may be replaced by any other (`ofTokens_hidden`).
-/

namespace Except

variable {ε α β : Type}

theorem ok_of_mapM_append_cons {f : α → Except ε β} {as bs : List α} {a : α} {rs : List β}
    (h : (as ++ a :: bs).mapM f = .ok rs) :
    ∃ ls rest, as.mapM f = .ok ls ∧ bs.mapM f = .ok rest := by
  rw [List.mapM_append] at h
  obtain ⟨ls, hls, htail⟩ := bind_eq_ok_iff.mp h
  obtain ⟨_, hmore, -⟩ := bind_eq_ok_iff.mp htail
  obtain ⟨-, rest, -, hrest, -⟩ := mapM_cons_eq_ok_iff.mp hmore
  exact ⟨ls, rest, hls, hrest⟩

/-- Between members that succeed a member decides alone. -/
theorem mapM_append_cons_of_ok {f : α → Except ε β} {as bs : List α} {ls rest : List β}
    (has : as.mapM f = .ok ls) (hbs : bs.mapM f = .ok rest) (a : α) :
    (as ++ a :: bs).mapM f = (do let r ← f a; .ok (ls ++ r :: rest)) := by
  rw [List.mapM_append, List.mapM_cons, has, hbs]
  cases f a <;> rfl

end Except

namespace FormulaGrid

/-- A member that is not the only one stands in a list of several. -/
theorem exists_append_cons {α : Type} {before after : List α} (h : ¬(before = [] ∧ after = []))
    (a : α) : ∃ first second others, before ++ a :: after = first :: second :: others := by
  match before, after with
  | [], [] => exact absurd ⟨rfl, rfl⟩ h
  | [], second :: others => exact ⟨a, second, others, rfl⟩
  | [first], after => exact ⟨first, a, after, rfl⟩
  | first :: second :: others, after => exact ⟨first, second, others ++ a :: after, rfl⟩

namespace Token

/-! ### The part of a span -/

/-- The tokens after the last comma. -/
def lastPart (ts : List Token) : List Token := (parts ts).2.getLastD (parts ts).1

/-- No span stands after the last comma, so what comes after the tokens is read. -/
def SpanFree (before : List Token) : Prop := ∀ name contents, span name contents ∉ lastPart before

theorem lastPart_comma (ts : List Token) : lastPart (op .comma :: ts) = lastPart ts := by
  rw [lastPart, parts_comma, List.getLastD_cons, lastPart]

theorem lastPart_cons {t : Token} (ht : t ≠ op .comma) (ts : List Token) :
    lastPart (t :: ts) = if (parts ts).2 = [] then t :: lastPart ts else lastPart ts := by
  rw [lastPart, parts_cons ht, lastPart]
  cases (parts ts).2 with
  | nil => rfl
  | cons p others => rw [if_neg (List.cons_ne_nil p others), List.getLastD_cons, List.getLastD_cons]

/-- A span stands in one part with the tokens after the last comma before it and those up to the next
comma. -/
theorem parts_append_span (before : List Token) (name contents : String) (after : List Token) :
    (parts (before ++ span name contents :: after)).1 ::
        (parts (before ++ span name contents :: after)).2 =
      ((parts before).1 :: (parts before).2).dropLast ++
        (lastPart before ++ span name contents :: (parts after).1) :: (parts after).2 := by
  fun_induction parts before with
  | case1 => simp [lastPart, parts_cons]
  | case2 before ih =>
    rw [List.cons_append, parts_comma, ih, lastPart_comma]
    rfl
  | case3 u before hu ih =>
    rw [List.cons_append, parts_cons hu, lastPart_cons hu]
    cases hothers : (parts before).2 with
    | nil =>
      rw [hothers] at ih
      obtain ⟨hfirst, hrest⟩ := List.cons.inj ih
      simp [hfirst, hrest]
    | cons p others =>
      rw [hothers] at ih
      obtain ⟨hfirst, hrest⟩ := List.cons.inj ih
      simp [hfirst, hrest]

/-! ### Segments -/

theorem weave_cons (seg : List Operand × Symbol) (lead : List (List Operand × Symbol))
    (tail : List Token) :
    weave (seg :: lead) tail = seg.1.map .operand ++ .op seg.2 :: weave lead tail := rfl

theorem weave_append (lead : List (List Operand × Symbol)) (tail more : List Token) :
    weave lead tail ++ more = weave lead (tail ++ more) := by
  induction lead with
  | nil => rfl
  | cons seg lead ih => rw [weave_cons, weave_cons, ← ih, List.append_assoc, List.cons_append]

theorem span_not_mem_weave {name contents : String} (lead : List (List Operand × Symbol))
    (held : List Operand) : span name contents ∉ weave lead (held.map .operand) := by
  induction lead with
  | nil => simp [weave]
  | cons seg lead ih => simp [weave_cons, ih]

/-- The last segment is empty if nothing or an operator comes last. -/
theorem held_eq_nil_iff (lead : List (List Operand × Symbol)) (held : List Operand) :
    held = [] ↔ ∀ t ∈ (weave lead (held.map .operand)).getLast?, t.IsOp := by
  induction lead with
  | nil =>
    rcases List.eq_nil_or_concat held with rfl | ⟨front, o, rfl⟩ <;> simp [weave, IsOp]
  | cons seg lead ih =>
    rw [ih, weave_cons, List.getLast?_append_cons]
    cases hrest : weave lead (held.map .operand) with
    | nil => simp [IsOp]
    | cons t ts => rw [List.getLast?_cons_cons]

/-- Tokens without spans are segments up to their end. -/
theorem exists_held {ts : List Token} (h : ∀ name contents, span name contents ∉ ts) :
    ∃ (lead : List (List Operand × Symbol)) (held : List Operand),
      ts = weave lead (held.map .operand) := by
  rcases Builder.exists_weave ts with hend | ⟨lead, held, name, contents, rest, rfl⟩
  · exact hend
  · refine absurd ?_ (h name contents)
    rw [← weave_append]
    simp

end Token

/-- The place of an argument among those of a node. -/
structure Frame (α : Type) where
  name : String
  before : List α
  after : List α

namespace Builder

variable {α : Type} (b : Builder α)

/-- The node with the given argument in the place. -/
def fillFrame (f : α) (frame : Frame α) : Except ParseError α :=
  b.node frame.name (frame.before ++ f :: frame.after)

/-- The nodes around a node, the innermost first. -/
def plug (frames : List (Frame α)) (f : α) : Except ParseError α := frames.foldlM b.fillFrame f

variable {b} {inner : String → Except ParseError α}

theorem bind_plug_append (x : Except ParseError α) (frames frames' : List (Frame α)) :
    x >>= b.plug (frames ++ frames') = x >>= b.plug frames >>= b.plug frames' := by
  rw [bind_assoc]
  exact bind_congr fun f => List.foldlM_append

theorem bind_plug_single (x : Except ParseError α) (frame : Frame α) :
    x >>= b.plug [frame] = x >>= fun f => b.fillFrame f frame :=
  bind_congr fun f => bind_pure (b.fillFrame f frame)

/-! ### Operators before a span -/

theorem ofChain_op_of_ne {held : List Operand} {s : Symbol} {k : Chain} (hk : k ≠ .last []) :
    b.ofChain inner (.op held s k) = (do
      let left ← b.ofOperands held
      let right ← b.ofChain inner k
      b.node s.name [left, right]) := by
  rw [ofChain, if_neg fun hboth => hk hboth.2]

theorem foldr_op_ne {k : Chain} (hk : k ≠ .last []) (lead : List (List Operand × Symbol)) :
    lead.foldr (fun seg k => Chain.op seg.1 seg.2 k) k ≠ .last [] := by
  cases lead with
  | nil => exact hk
  | cons => nofun

/-- What comes after operators is read first, and then it is the last argument of each. -/
theorem exists_plug_foldr {k : Chain} (hk : k ≠ .last []) (lead : List (List Operand × Symbol)) {e : α}
    (h : b.ofChain inner (lead.foldr (fun seg k => .op seg.1 seg.2 k) k) = .ok e) :
    ∃ frames, ∀ k' ≠ Chain.last [],
      b.ofChain inner (lead.foldr (fun seg k => .op seg.1 seg.2 k) k') =
        b.ofChain inner k' >>= b.plug frames := by
  induction lead generalizing e with
  | nil => exact ⟨[], fun k' _ => (bind_pure _).symm⟩
  | cons seg lead ih =>
    rw [List.foldr_cons, ofChain_op_of_ne (foldr_op_ne hk lead)] at h
    obtain ⟨left, hleft, h⟩ := Except.bind_eq_ok_iff.mp h
    obtain ⟨right, hright, -⟩ := Except.bind_eq_ok_iff.mp h
    obtain ⟨frames, hframes⟩ := ih hright
    refine ⟨frames ++ [⟨seg.2.name, [left], []⟩], fun k' hk' => ?_⟩
    rw [List.foldr_cons, ofChain_op_of_ne (foldr_op_ne hk' lead), hleft, hframes k' hk', bind_plug_append,
      bind_plug_single]
    rfl

theorem foldr_op_congr {k k' : Chain} (hk : k ≠ .last []) (hk' : k' ≠ .last [])
    (h : b.ofChain inner k = b.ofChain inner k') (lead : List (List Operand × Symbol)) :
    b.ofChain inner (lead.foldr (fun seg k => .op seg.1 seg.2 k) k) =
      b.ofChain inner (lead.foldr (fun seg k => .op seg.1 seg.2 k) k') := by
  induction lead with
  | nil => exact h
  | cons seg lead ih =>
    rw [List.foldr_cons, List.foldr_cons, ofChain_op_of_ne (foldr_op_ne hk lead),
      ofChain_op_of_ne (foldr_op_ne hk' lead), ih]

/-! ### The parts around a span -/

theorem ofTokens_of_sole {ts p : List Token} (h : (Token.parts ts).1 :: (Token.parts ts).2 = [p]) :
    b.ofTokens inner ts = b.ofChain inner (.ofTokens p) := by
  obtain ⟨rfl, hothers⟩ := List.cons.inj h
  rw [ofTokens]
  split
  next heq => rw [heq]
  next heq => simp_all

theorem ofTokens_of_several {ts p q : List Token} {ps : List (List Token)}
    (h : (Token.parts ts).1 :: (Token.parts ts).2 = p :: q :: ps) :
    b.ofTokens inner ts =
      (p :: q :: ps).mapM (fun part => b.ofChain inner (.ofTokens part)) >>=
        b.node Symbol.comma.name := by
  rw [ofTokens]
  split
  next heq => simp_all
  next heq => rw [← h, heq]

/-- A part is read, and then it is one argument of the comma if there are others. -/
theorem exists_plug_part {ts p : List Token} {before after : List (List Token)} {e : α}
    (hts : (Token.parts ts).1 :: (Token.parts ts).2 = before ++ p :: after)
    (h : b.ofTokens inner ts = .ok e) :
    ∃ frames, ∀ us q, (Token.parts us).1 :: (Token.parts us).2 = before ++ q :: after →
      b.ofTokens inner us = b.ofChain inner (.ofTokens q) >>= b.plug frames := by
  by_cases hsole : before = [] ∧ after = []
  · obtain ⟨rfl, rfl⟩ := hsole
    refine ⟨[], fun us q hus => ?_⟩
    rw [ofTokens_of_sole hus]
    exact (bind_pure _).symm
  · obtain ⟨_, _, _, hp⟩ := exists_append_cons hsole p
    rw [ofTokens_of_several (hts.trans hp), ← hp] at h
    obtain ⟨args, hargs, -⟩ := Except.bind_eq_ok_iff.mp h
    obtain ⟨ls, rs, hls, hrs⟩ := Except.ok_of_mapM_append_cons hargs
    refine ⟨[⟨Symbol.comma.name, ls, rs⟩], fun us q hus => ?_⟩
    obtain ⟨_, _, _, hq⟩ := exists_append_cons hsole q
    rw [ofTokens_of_several (hus.trans hq), ← hq, Except.mapM_append_cons_of_ok hls hrs, bind_plug_single,
      bind_assoc]
    rfl

/-! ### Spans in token lists -/

/-- A span that is read, with the operands before it in its segment and the tokens after it in its part:
the nodes around it are the same for all contents. -/
theorem exists_plug_span {before after : List Token} {name contents : String} {e : α}
    (hfree : Token.SpanFree before)
    (h : b.ofTokens inner (before ++ .span name contents :: after) = .ok e) :
    ∃ (held : List Operand) (frames : List (Frame α)),
      (held = [] ↔ ∀ t ∈ (Token.lastPart before).getLast?, t.IsOp) ∧
        ∀ contents', b.ofTokens inner (before ++ .span name contents' :: after) =
          b.ofChain inner (.span held name contents' (Token.parts after).1) >>= b.plug frames := by
  obtain ⟨lead, held, hweave⟩ := Token.exists_held hfree
  have hchain : ∀ contents', Chain.ofTokens
      (Token.lastPart before ++ .span name contents' :: (Token.parts after).1) =
        lead.foldr (fun seg k => .op seg.1 seg.2 k)
          (.span held name contents' (Token.parts after).1) := by
    intro contents'
    rw [hweave, Token.weave_append, ofTokens_weave, ofTokens_held_span]
  have hparts := fun contents' => Token.parts_append_span before name contents' after
  obtain ⟨outer, houter⟩ := exists_plug_part (hparts contents) h
  rw [houter _ _ (hparts contents), hchain] at h
  obtain ⟨part, hpart, -⟩ := Except.bind_eq_ok_iff.mp h
  obtain ⟨frames, hframes⟩ := exists_plug_foldr (by nofun) lead hpart
  refine ⟨held, frames ++ outer, hweave ▸ Token.held_eq_nil_iff lead held, fun contents' => ?_⟩
  rw [houter _ _ (hparts contents'), hchain, hframes _ (by nofun), bind_plug_append]

theorem ofChain_span_of_ne {held : List Operand} {name contents : String} {rest : List Token}
    (h : ¬(held = [] ∧ rest = [] ∧ contents = "")) :
    b.ofChain inner (.span held name contents rest) =
      (do let arg ← inner contents; b.node name [arg]) := by
  rw [ofChain, if_neg h]

/-- A span after another one in its part is not read. -/
theorem ofTokens_hidden {before after : List Token} {name contents : String} {e : α}
    (hhidden : ¬Token.SpanFree before)
    (h : b.ofTokens inner (before ++ .span name contents :: after) = .ok e) (contents' : String) :
    b.ofTokens inner (before ++ .span name contents' :: after) = .ok e := by
  have hparts := fun contents' => Token.parts_append_span before name contents' after
  obtain ⟨frames, hframes⟩ := exists_plug_part (hparts contents) h
  rw [hframes _ _ (hparts contents)] at h
  rw [hframes _ _ (hparts contents'), ← h]
  congr 1
  rcases exists_weave (Token.lastPart before) with
    ⟨lead, held, hweave⟩ | ⟨lead, held, first, inside, rest, hweave⟩
  · exact absurd (fun name contents => hweave ▸ Token.span_not_mem_weave lead held) hhidden
  · simp only [hweave, Token.weave_append, List.append_assoc, List.cons_append, ofTokens_weave,
      ofTokens_held_span]
    refine foldr_op_congr (by nofun) (by nofun) ?_ lead
    rw [ofChain_span_of_ne (by simp), ofChain_span_of_ne (by simp)]

end Builder

end FormulaGrid
