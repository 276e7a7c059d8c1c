import FormulaGrid.Catalog.Builder
import FormulaGrid.Proofs.Lexing

/-!
# Proofs.ParsedShape — what formulas of texts look like

The grammar takes one operand or none on the left of an operator, and a list of arguments is taken out
of its comma node.  `Formula.Written` describes the formulas that can come out of a text in this way,
and every formula of a text is one (`written_of_parse`).
-/

namespace FormulaGrid

/-- The operation of the standard catalog that a symbol stands for. -/
def Symbol.operation : Symbol → Operation
  | plus => .plus
  | minus => .minus
  | times => .times
  | divide => .divide
  | less => .less
  | comma => .comma

namespace Formula

/-- A formula without operations. -/
def IsLeaf : Formula → Prop
  | app _ _ => False
  | _ => True

/-- A formula as it can come out of a text. -/
inductive Written : Formula → Prop
  | blank : Written .blank
  | const {n : Int64} (h : 0 ≤ n.toInt) : Written (.const n)
  | ref {name : String} (h : IsName name.toList) : Written (.ref name)
  | alone {s : Symbol} (hs : s ≠ .comma) : Written (.app s.operation [.blank])
  | pair {s : Symbol} (hs : s ≠ .comma) {l r : Formula} (hleaf : l.IsLeaf) (hl : Written l)
      (hr : Written r) : Written (.app s.operation [l, r])
  | call {op : Operation} (hop : op = .mean ∨ op = .median) {args : List Formula} (hne : args ≠ [])
      (hargs : ∀ a ∈ args, Written a) (hsole : ∀ fs, args ≠ [.app .comma fs]) :
      Written (.app op args)
  | list {args : List Formula} (hlen : 2 ≤ args.length) (hargs : ∀ a ∈ args, Written a) :
      Written (.app .comma args)

end Formula

open Formula

namespace Catalog

/-! ### The standard catalog -/

theorem find?_symbol (s : Symbol) : standard.find? s.name = some s.operation := by
  cases s <;> rfl

theorem mem_ops_of_find? {c : Catalog} {name : String} {op : Operation}
    (h : c.find? name = some op) : op ∈ c.ops ∧ op.key = upper name := by
  have hkey := List.find?_some h
  exact ⟨List.mem_of_find?_eq_some h, by simpa using hkey⟩

theorem toNat_toUpper {c : Char} (h : c.isAlpha = true) : 65 ≤ c.toUpper.toNat := by
  have hall : ∀ n < 123, 65 ≤ n → 65 ≤ (Char.ofNat n).toUpper.toNat := by decide
  have hrange := toNat_of_isAlpha h
  have hc := hall c.toNat (by omega) (by omega)
  rwa [Char.ofNat_toNat] at hc

/-- The upper-case form of a name starts behind all operator symbols. -/
theorem exists_toList_upper {name : String} (h : IsName name.toList) :
    ∃ c cs, (upper name).toList = c :: cs ∧ 65 ≤ c.toNat := by
  cases hn : name.toList with
  | nil => rw [hn] at h; exact absurd h id
  | cons c cs =>
    rw [hn] at h
    have hrange := toNat_of_isAlpha h.1
    refine ⟨c.toUpper, cs.flatMap upperChar, ?_, toNat_toUpper h.1⟩
    rw [toList_upper, hn, List.flatMap_cons, upperChar_ascii (by omega)]
    rfl

/-- The operations under names that are not symbols are the averages. -/
theorem find?_of_isName {name : String} {op : Operation} (hname : IsName name.toList)
    (h : standard.find? name = some op) : op = .mean ∨ op = .median := by
  obtain ⟨hmem, hkey⟩ := mem_ops_of_find? h
  obtain ⟨c, cs, hupper, hc⟩ := exists_toList_upper hname
  have hsymbols : ∀ o ∈ [Operation.comma, .less, .divide, .times, .minus, .plus],
      o.key.toList.head?.all (·.toNat < 65) := by decide
  have hhead : op.key.toList.head? = some c := by rw [hkey, hupper]; rfl
  have hno : op ∉ [Operation.comma, .less, .divide, .times, .minus, .plus] := by
    intro hop
    have hlow := hsymbols op hop
    simp only [hhead, Option.all_some, decide_eq_true_eq] at hlow
    omega
  rw [ops_standard] at hmem
  simp only [List.mem_cons, List.not_mem_nil, or_false, not_or] at hmem hno
  rcases hmem with rfl | rfl | rfl | rfl | rfl | rfl | rfl | rfl <;> simp_all

theorem build_symbol (s : Symbol) {args : List Formula} (h : args ≠ []) :
    standard.build s.name args = .ok (.app s.operation args) := by
  have hcount : s.operation.arity.admits args.length = true := by
    have hpos := List.length_pos_iff.mpr h
    cases s <;> exact Arity.admits_oneOrMore_iff.mpr hpos
  rw [build, find?_symbol]
  exact Formula.make_of_admits hcount

theorem build_average {op : Operation} (hop : op = .mean ∨ op = .median) {args : List Formula}
    (h : args ≠ []) : standard.build op.name args = .ok (.app op args) := by
  have hfind : standard.find? op.name = some op := by rcases hop with rfl | rfl <;> rfl
  have hcount : op.arity.admits args.length = true := by
    have hpos := List.length_pos_iff.mpr h
    rcases hop with rfl | rfl <;> exact Arity.admits_oneOrMore_iff.mpr hpos
  rw [build, hfind]
  exact Formula.make_of_admits hcount

theorem build_of_isName {name : String} {args : List Formula} {e : Formula}
    (hname : IsName name.toList) (h : standard.build name args = .ok e) :
    ∃ op, (op = .mean ∨ op = .median) ∧ args ≠ [] ∧ e = .app op args := by
  unfold build at h
  split at h
  next op hop =>
    obtain ⟨hcount, rfl⟩ := Formula.make_eq_ok_iff.mp h
    have hop' := find?_of_isName hname hop
    refine ⟨op, hop', ?_, rfl⟩
    rintro rfl
    rcases hop' with rfl | rfl <;> cases hcount
  next => cases h

/-! ### Argument lists -/

theorem unpack_comma (args : List Formula) : unpack [.app .comma args] = args := by
  rw [unpack]
  exact if_pos rfl

theorem unpack_of_length {args : List Formula} (h : 2 ≤ args.length) : unpack args = args := by
  match args, h with
  | f :: _ :: _, _ => cases f <;> rfl

theorem unpack_leaf {f : Formula} (h : f.IsLeaf) : unpack [f] = [f] := by
  cases f with
  | app => exact absurd h id
  | blank | const | ref => rfl

theorem unpack_app {op : Operation} (h : op.name ≠ Symbol.comma.name) (args : List Formula) :
    unpack [.app op args] = [.app op args] := if_neg h

theorem operation_name_ne {s : Symbol} (h : s ≠ .comma) : s.operation.name ≠ Symbol.comma.name := by
  cases s <;> first | exact absurd rfl h | decide

/-- A formula of a text is a comma node with several arguments, or it is its own argument list. -/
theorem unpack_written {f : Formula} (h : Written f) :
    (∃ args, f = .app .comma args ∧ 2 ≤ args.length ∧ ∀ a ∈ args, Written a) ∨
      unpack [f] = [f] ∧ ∀ args, f ≠ .app .comma args := by
  cases h with
  | blank => exact .inr ⟨rfl, by simp⟩
  | const => exact .inr ⟨rfl, by simp⟩
  | ref => exact .inr ⟨rfl, by simp⟩
  | alone hs =>
    refine .inr ⟨unpack_app (operation_name_ne hs) _, fun args e => operation_name_ne hs ?_⟩
    rw [(Formula.app.inj e).1]
    rfl
  | pair hs =>
    refine .inr ⟨unpack_app (operation_name_ne hs) _, fun args e => operation_name_ne hs ?_⟩
    rw [(Formula.app.inj e).1]
    rfl
  | call hop =>
    have hne : ∀ o, o = Operation.mean ∨ o = .median → o.name ≠ Symbol.comma.name := by
      rintro o (rfl | rfl) <;> decide
    refine .inr ⟨unpack_app (hne _ hop) _, fun args e => hne _ hop ?_⟩
    rw [(Formula.app.inj e).1]
    rfl
  | list hlen hargs => exact .inl ⟨_, rfl, hlen, hargs⟩

theorem combine_symbol (s : Symbol) {args : List Formula} (hne : args ≠ [])
    (hargs : unpack args = args) : standard.combine s.name args = .ok (.app s.operation args) := by
  have hname : s.name ≠ "" := by cases s <;> decide
  simp only [combine, hargs, if_neg hname]
  exact build_symbol s hne

/-- A span without a name stands for what it encloses. -/
theorem combine_group {f : Formula} (h : Written f) : standard.combine "" [f] = .ok f := by
  rcases unpack_written h with ⟨args, rfl, hlen, -⟩ | ⟨hf, -⟩
  · simp only [combine, unpack_comma, if_true]
    match args, hlen with
    | a :: b :: rest, _ => exact build_symbol .comma (by simp)
  · simp only [combine, hf, if_true]

theorem written_of_combine {name : String} {f e : Formula} (hname : IsName name.toList)
    (hf : Written f) (h : standard.combine name [f] = .ok e) : Written e := by
  simp only [combine, if_neg (ne_empty_of_isName hname)] at h
  obtain ⟨op, hop, hargs, rfl⟩ := build_of_isName hname h
  rcases unpack_written hf with ⟨args, rfl, hlen, hall⟩ | ⟨hsole, hno⟩
  · rw [unpack_comma] at hargs ⊢
    refine .call hop hargs hall ?_
    rintro fs rfl
    simp at hlen
  · rw [hsole] at hargs ⊢
    exact .call hop hargs (by simpa using hf) (by simpa using hno)

end Catalog

/-! ### Formulas of texts -/

theorem Token.comma_not_mem_of_mem_parts {ts p : List Token}
    (hp : p ∈ (parts ts).1 :: (parts ts).2) : Token.op .comma ∉ p := by
  fun_induction parts ts generalizing p with
  | case1 => simp_all
  | case2 ts ih =>
    rcases List.mem_cons.mp hp with rfl | hp
    · simp
    · exact ih hp
  | case3 t ts ht ih =>
    rcases List.mem_cons.mp hp with rfl | hp
    · intro hm
      rcases List.mem_cons.mp hm with e | hm
      · exact ht e.symm
      · exact ih (by simp) hm
    · exact ih (by simp [hp])

theorem Decimal.toInt_of_toInt64? {ds : List Char} {n : Int64} (h : toInt64? ds = some n) :
    n.toInt = toNat ds := by
  unfold toInt64? at h
  split at h
  next hlt =>
    cases h
    exact Int64.toInt_ofNat_of_lt hlt
  next => cases h

namespace Builder

open Catalog

theorem node_of_apply {α : Type} {b : Builder α} {name : String} {args : List α} {e : α}
    (h : b.apply name args = .ok e) : b.node name args = .ok e :=
  Except.mapError_eq_ok_iff.mpr h

theorem apply_of_node {α : Type} {b : Builder α} {name : String} {args : List α} {e : α}
    (h : b.node name args = .ok e) : b.apply name args = .ok e :=
  Except.mapError_eq_ok_iff.mp h

theorem parse_empty {α : Type} (b : Builder α) : b.parse "" = .ok b.blank := by
  have hlex : Token.lex "" = .ok [] := Token.Lexes.nil.lex_eq
  rw [parse_eq, hlex]
  rfl

/-- A node of tokens is that of their only part, or a comma node over those of their parts. -/
theorem ofTokens_cases {α : Type} {b : Builder α} {inner : String → Except ParseError α}
    {ts : List Token} {e : α} (h : b.ofTokens inner ts = .ok e) :
    (∃ p ∈ (Token.parts ts).1 :: (Token.parts ts).2, b.ofChain inner (.ofTokens p) = .ok e) ∨
      ∃ args, 2 ≤ args.length ∧
        (∀ a ∈ args, ∃ p ∈ (Token.parts ts).1 :: (Token.parts ts).2,
          b.ofChain inner (.ofTokens p) = .ok a) ∧
        b.node Symbol.comma.name args = .ok e := by
  unfold ofTokens at h
  split at h
  next only hparts => exact .inl ⟨only, by simp [hparts], h⟩
  next first others hother hparts =>
    obtain ⟨args, hargs, h⟩ := Except.bind_eq_ok_iff.mp h
    have hothers : 0 < others.length := List.length_pos_iff.mpr fun hnil => hother hnil
    have htwo : 2 ≤ args.length := by
      rw [Except.length_of_mapM hargs, List.length_cons]
      omega
    rw [hparts]
    exact .inr ⟨args, htwo, Except.exists_of_mem_mapM hargs, h⟩

/-- What holds of the node of a text as soon as it holds of the insides of its spans holds of the nodes of
all texts. -/
theorem parse_ind {α : Type} {b : Builder α} {P : String → α → Prop}
    (step : ∀ text ts e, Token.lex text = .ok ts →
      (∀ name contents, Token.span name contents ∈ ts → ∀ f, b.parse contents = .ok f → P contents f) →
      b.ofTokens b.parse ts = .ok e → P text e)
    {text : String} {e : α} (h : b.parse text = .ok e) : P text e := by
  induction text using Token.wellFounded_inside.induction generalizing e with
  | _ text ih =>
    rw [parse_eq] at h
    split at h
    next => cases h
    next ts hts =>
      exact step text ts e hts (fun name contents hm f hf => ih contents ⟨name, ts, hts, hm⟩ hf) h

theorem node_symbol_blank (s : Symbol) :
    standard.builder.node s.name [standard.builder.blank] = .ok (.app s.operation [.blank]) :=
  node_of_apply (combine_symbol s (by simp) rfl)

theorem node_symbol (s : Symbol) {args : List Formula} (h : 2 ≤ args.length) :
    standard.builder.node s.name args = .ok (.app s.operation args) := by
  have hne : args ≠ [] := by
    rintro rfl
    simp at h
  exact node_of_apply (combine_symbol s hne (unpack_of_length h))

theorem node_group {f : Formula} (h : Written f) : standard.builder.node "" [f] = .ok f :=
  node_of_apply (combine_group h)

theorem node_group_blank : standard.builder.node "" [standard.builder.blank] = .ok .blank :=
  node_group .blank

theorem written_of_ofOperands {held : List Operand} {l : Formula}
    (hvalid : ∀ o ∈ held, (Token.operand o).Valid)
    (h : standard.builder.ofOperands held = .ok l) : Written l ∧ l.IsLeaf := by
  unfold ofOperands at h
  split at h
  next =>
    cases h
    exact ⟨.blank, trivial⟩
  next name =>
    cases h
    exact ⟨.ref (hvalid (.ref name) (by simp)), trivial⟩
  next digits =>
    split at h
    next n hn =>
      cases h
      have hnonneg : 0 ≤ n.toInt := by
        rw [Decimal.toInt_of_toInt64? hn]
        omega
      exact ⟨.const hnonneg, trivial⟩
    next => cases h
  next => cases h

theorem written_of_ofChain {inner : String → Except ParseError Formula} {k : Chain} {e : Formula}
    (hvalid : ∀ t ∈ k.toTokens, t.Valid) (hcomma : Token.op .comma ∉ k.toTokens)
    (hinner : ∀ name contents, Token.span name contents ∈ k.toTokens → ∀ f,
      inner contents = .ok f → Written f)
    (h : standard.builder.ofChain inner k = .ok e) : Written e := by
  induction k generalizing e with
  | last held =>
    refine (written_of_ofOperands (fun o ho => hvalid _ ?_) h).1
    simpa [Chain.toTokens] using ho
  | op held symbol rest ih =>
    have hs : symbol ≠ .comma := by
      rintro rfl
      simp [Chain.toTokens] at hcomma
    rw [ofChain] at h
    split at h
    · rw [node_symbol_blank] at h
      cases h
      exact .alone hs
    · obtain ⟨l, hl, h⟩ := Except.bind_eq_ok_iff.mp h
      obtain ⟨r, hr, h⟩ := Except.bind_eq_ok_iff.mp h
      rw [node_symbol symbol (by simp)] at h
      obtain rfl := Except.ok.inj h
      obtain ⟨hwl, hleaf⟩ :=
        written_of_ofOperands (fun o ho => hvalid _ (by simp [Chain.toTokens, ho])) hl
      have hwr := ih (fun t ht => hvalid t (by simp [Chain.toTokens, ht]))
        (fun ht => hcomma (by simp [Chain.toTokens, ht]))
        (fun name contents hm => hinner name contents (by simp [Chain.toTokens, hm])) hr
      exact .pair hs hleaf hwl hwr
  | span held name contents rest =>
    rw [ofChain] at h
    split at h
    · rw [node_group_blank] at h
      cases h
      exact .blank
    · obtain ⟨a, ha, h⟩ := Except.bind_eq_ok_iff.mp h
      have hwa := hinner name contents (by simp [Chain.toTokens]) a ha
      rcases (hvalid (.span name contents) (by simp [Chain.toTokens])).1 with rfl | hname
      · rw [node_group hwa] at h
        obtain rfl := Except.ok.inj h
        exact hwa
      · exact written_of_combine hname hwa (apply_of_node h)

theorem written_of_ofTokens {inner : String → Except ParseError Formula} {ts : List Token}
    {e : Formula} (hvalid : ∀ t ∈ ts, t.Valid)
    (hinner : ∀ name contents, Token.span name contents ∈ ts → ∀ f, inner contents = .ok f →
      Written f)
    (h : standard.builder.ofTokens inner ts = .ok e) : Written e := by
  have hpart : ∀ p ∈ (Token.parts ts).1 :: (Token.parts ts).2, ∀ f,
      standard.builder.ofChain inner (.ofTokens p) = .ok f → Written f := by
    intro p hp f hf
    have hmem : ∀ t ∈ (Chain.ofTokens p).toTokens, t ∈ ts := by
      intro t ht
      exact Token.mem_of_mem_parts hp (by simpa using ht)
    have hcomma : Token.op .comma ∉ (Chain.ofTokens p).toTokens := by
      simpa using Token.comma_not_mem_of_mem_parts hp
    exact written_of_ofChain (fun t ht => hvalid t (hmem t ht)) hcomma
      (fun name contents hm => hinner name contents (hmem _ hm)) hf
  rcases ofTokens_cases h with ⟨p, hp, hf⟩ | ⟨args, htwo, hargs, hnode⟩
  · exact hpart p hp e hf
  · rw [node_symbol .comma htwo] at hnode
    obtain rfl := Except.ok.inj hnode
    refine .list htwo fun a ha => ?_
    obtain ⟨p, hp, hf⟩ := hargs a ha
    exact hpart p hp a hf

/-- Every formula of a text over the standard catalog has the shape of a written formula. -/
theorem written_of_parse {text : String} {e : Formula} (h : standard.parse text = .ok e) :
    Written e :=
  parse_ind (fun _ _ _ hts hinner hnode => written_of_ofTokens (Token.valid_of_lex hts) hinner hnode) h

end Builder

end FormulaGrid
