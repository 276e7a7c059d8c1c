import FormulaGrid.Proofs.Occurrence

/-!
# Proofs.Shape — the nodes of formulas of texts

The grammar puts restrictions on every node of a formula of a text, at any depth: what may stand on the
left of an operator, how many arguments a comma has, which constants and which names there are
(`Shaped`, `shaped_of_parse`).  So a formula with an operation on the left of an operator cannot be
written as a text.
-/

namespace FormulaGrid

open Catalog

namespace Formula

/-- The first formula is the second one or stands in it, at any depth. -/
inductive Within : Formula → Formula → Prop
  | self (f : Formula) : Within f f
  | arg {g a : Formula} {op : Operation} {args : List Formula} (ha : a ∈ args) (h : Within g a) :
      Within g (.app op args)

/-- An operation over arguments as it can come out of a text. -/
structure ShapedNode (op : Operation) (args : List Formula) : Prop where
  /-- The operation is that of its name in the standard catalog. -/
  known : standard.find? op.name = some op
  admits : op.arity.admits args.length = true
  /-- An operator has a blank alone, or two arguments without an operation in the first one. -/
  operator : op.style = .between → args = [blank] ∨ ∃ l r, args = [l, r] ∧ l.IsLeaf
  comma : op.name = Symbol.comma.name → 2 ≤ args.length
  /-- A sole comma node among the arguments of a call would have been taken apart. -/
  average : op.name = "MEAN" ∨ op.name = "MEDIAN" →
    ∀ o fs, args = [.app o fs] → o.name ≠ Symbol.comma.name

/-- A formula as it can stand in a formula of the text. -/
def Shaped (text : String) : Formula → Prop
  | blank => True
  | const n => 0 ≤ n.toInt ∧ n.toInt ≤ Int64.maxValue.toInt
  | ref name => IsName name.toList ∧ StandsIn name text.toList
  | app op args => ShapedNode op args

theorem Within.written {f g : Formula} (h : g.Within f) (hf : Written f) : Written g := by
  induction h with
  | self => exact hf
  | @arg a op args ha _ ih =>
    refine ih ?_
    cases hf with
    | alone =>
      obtain rfl : a = .blank := by simpa using ha
      exact .blank
    | pair _ _ hl hr =>
      rcases List.mem_pair.mp ha with rfl | rfl
      · exact hl
      · exact hr
    | call _ _ hargs => exact hargs a ha
    | list _ hargs => exact hargs a ha

theorem Within.refs_subset {f g : Formula} (h : g.Within f) {name : String}
    (hname : name ∈ g.refs) : name ∈ f.refs := by
  induction h with
  | self => exact hname
  | arg ha _ ih =>
    rw [refs_app]
    exact List.mem_flatMap.mpr ⟨_, ha, ih⟩

/-! ### Each kind of node -/

theorem find?_operation (s : Symbol) : standard.find? s.operation.name = some s.operation := by
  rw [name_symbol, find?_symbol]

theorem admits_symbol (s : Symbol) {n : Nat} (h : 0 < n) : s.operation.arity.admits n = true := by
  cases s <;> exact Arity.admits_oneOrMore_iff.mpr h

theorem operation_ne_average (s : Symbol) :
    ¬(s.operation.name = "MEAN" ∨ s.operation.name = "MEDIAN") := by
  cases s <;> decide

theorem shapedNode_operator {s : Symbol} (hs : s ≠ .comma) {args : List Formula}
    (hargs : args = [blank] ∨ ∃ l r, args = [l, r] ∧ l.IsLeaf) :
    ShapedNode s.operation args where
  known := find?_operation s
  admits := by
    refine admits_symbol s ?_
    rcases hargs with rfl | ⟨l, r, rfl, -⟩ <;> exact Nat.succ_pos _
  operator _ := hargs
  comma hcomma := absurd hcomma (operation_name_ne hs)
  average h := absurd h (operation_ne_average s)

theorem shapedNode_comma {args : List Formula} (hlen : 2 ≤ args.length) :
    ShapedNode .comma args where
  known := find?_operation .comma
  admits := admits_symbol .comma (by omega)
  operator := nofun
  comma _ := hlen
  average h := absurd h (operation_ne_average .comma)

theorem shapedNode_average {op : Operation} (hop : op = .mean ∨ op = .median)
    {args : List Formula} (hne : args ≠ []) (hargs : ∀ a ∈ args, Written a)
    (hsole : ∀ fs, args ≠ [.app .comma fs]) : ShapedNode op args where
  known := by rcases hop with rfl | rfl <;> rfl
  admits := by
    have hpos := List.length_pos_iff.mpr hne
    rcases hop with rfl | rfl <;> exact Arity.admits_oneOrMore_iff.mpr hpos
  operator hstyle := by rcases hop with rfl | rfl <;> cases hstyle
  comma hcomma := absurd hcomma (name_average_ne hop).1
  average := by
    rintro - o fs rfl hcomma
    -- a comma node of a text is one over several formulas, so its operation is the comma
    rcases unpack_written (hargs (.app o fs) (by simp)) with ⟨gs, heq, -⟩ | ⟨hunpack, -⟩
    · obtain ⟨rfl, rfl⟩ := Formula.app.inj heq
      exact hsole fs rfl
    · rw [unpack, if_pos hcomma] at hunpack
      have hsize := congrArg sizeOf hunpack
      simp at hsize
      omega

theorem shapedNode_of_written {op : Operation} {args : List Formula} (h : Written (.app op args)) :
    ShapedNode op args := by
  cases h with
  | alone hs => exact shapedNode_operator hs (.inl rfl)
  | @pair s hs l r hleaf => exact shapedNode_operator hs (.inr ⟨l, r, rfl, hleaf⟩)
  | call hop hne hargs hsole => exact shapedNode_average hop hne hargs hsole
  | list hlen => exact shapedNode_comma hlen

end Formula

open Formula

namespace Catalog

/-- Every node of a formula of a text, at any depth, is shaped like one. -/
theorem shaped_of_parse {text : String} {e : Formula} (h : standard.parse text = .ok e) :
    ∀ g : Formula, g.Within e → g.Shaped text := by
  intro g hg
  have hw := hg.written (Builder.written_of_parse h)
  cases g with
  | blank => exact trivial
  | const n =>
    cases hw with
    | const hn => exact ⟨hn, Int64.toInt_le n⟩
  | ref name => exact standsIn_of_parse h (hg.refs_subset (by simp))
  | app op args => exact shapedNode_of_written hw

/-- A difference with a mean over a group and an operator on its right. -/
def minusMean : Formula :=
  .app .minus [.ref "A0", .app .mean [.app .comma [.const 1, .ref "k"], .app .less [.blank]]]

theorem minusMean_shaped :
    standard.parse "A0 - Mean((1, k), <) kk" = .ok minusMean ∧
      (Formula.ref "k").Within minusMean ∧ (Formula.ref "k").Shaped "A0 - Mean((1, k), <) kk" ∧
      minusMean.Shaped "A0 - Mean((1, k), <) kk" := by
  have hparse : standard.parse "A0 - Mean((1, k), <) kk" = .ok minusMean := by with_unfolding_all rfl
  have hlist : (Formula.ref "k").Within (.app .comma [.const 1, .ref "k"]) :=
    .arg (List.mem_cons_of_mem _ List.mem_cons_self) (.self _)
  have hmean : (Formula.ref "k").Within
      (.app .mean [.app .comma [.const 1, .ref "k"], .app .less [.blank]]) :=
    .arg List.mem_cons_self hlist
  have hwithin : (Formula.ref "k").Within minusMean :=
    .arg (List.mem_cons_of_mem _ List.mem_cons_self) hmean
  exact ⟨hparse, hwithin, shaped_of_parse hparse _ hwithin, shaped_of_parse hparse _ (.self _)⟩

end Catalog

end FormulaGrid
