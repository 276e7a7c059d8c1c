import FormulaGrid.Proofs.Replacement
import FormulaGrid.Proofs.Splicing

/-!
# Proofs.EmptySpans — parentheses around blanks and around nothing

A span of blanks is read like one of nothing, but for one place: a named span that stands alone between
the operators, commas and parentheses around it.  There a call of nothing is the blank formula, while a
call of anything else is a node over it.  Whatever the call is of, its node has one place in the formula
of the text, and around that place nothing changes (`Catalog.parse_emptied`).
-/

namespace FormulaGrid

namespace Token

/-- A parenthesis right after the first text and one right before the second are a span under the name,
which is not empty.  The span is read and stands alone: an operator, a comma, a parenthesis or nothing is
on its left, and a comma, a parenthesis or nothing on its right. -/
inductive Lone (name : String) : List Char → List Char → Prop
  | here {front back : List Char} {before after : List Token} (hopen : Opens front before name)
      (hname : name ≠ "") (hfree : SpanFree before)
      (hleft : ∀ t ∈ (lastPart before).getLast?, t.IsOp)
      (hback : lex (String.ofList back) = .ok after) (hright : (parts after).1 = []) :
      Lone name front back
  /-- It stands in a span that is read. -/
  | inside {front back pre post : List Char} {before after : List Token} {outer : String}
      (hopen : Opens front before outer) (hfree : SpanFree before)
      (hback : lex (String.ofList back) = .ok after) (h : Lone name pre post) :
      Lone name (front ++ '(' :: pre) (post ++ ')' :: back)

/-- A span in a span, with what stands inside the inner one. -/
theorem around_inside (front pre inside post back : List Char) :
    around (front ++ '(' :: pre) inside (post ++ ')' :: back) =
      around front (around pre inside post) back := by
  simp [around]

theorem around_ne_nil (pre inside post : List Char) : around pre inside post ≠ [] := by
  simp [around]

theorem Lone.level {name : String} {pre inside post : List Char} (h : Lone name pre post)
    (hin : Level inside) : Level (around pre inside post) := by
  induction h with
  | here hopen _ _ _ hback => exact (hopen.spells hin (lex_ofList_iff.mp hback)).level
  | inside hopen _ hback _ ih =>
    rw [around_inside]
    exact (hopen.spells ih (lex_ofList_iff.mp hback)).level

theorem Lone.isName {name : String} {pre post : List Char} (h : Lone name pre post) :
    IsName name.toList := by
  induction h with
  | here hopen hname => exact (isName_of_opens hopen).resolve_left hname
  | inside _ _ _ _ ih => exact ih

end Token

namespace Formula

/-- A formula with one place left open. -/
inductive Context where
  | hole
  | arg (op : Operation) (before : List Formula) (k : Context) (after : List Formula)

/-- The formula with `f` in the open place. -/
def Context.fill (f : Formula) : Context → Formula
  | hole => f
  | arg op before k after => .app op (before ++ k.fill f :: after)

theorem Context.fill_inj (k : Context) {f g : Formula} (h : k.fill f = k.fill g) : f = g := by
  induction k with
  | hole => exact h
  | arg op before k after ih =>
    obtain ⟨-, hargs⟩ := Formula.app.inj h
    exact ih (List.cons.inj (List.append_cancel_left hargs)).1

end Formula

open Formula

namespace Catalog

/-! ### Nodes around a place

A formula that is its own argument list stays in one place whatever nodes are made around it, and any
other such formula can stand there. -/

theorem unpack_append_cons {before after : List Formula} (h : ¬(before = [] ∧ after = []))
    (f : Formula) : unpack (before ++ f :: after) = before ++ f :: after := by
  obtain ⟨first, second, others, heq⟩ := exists_append_cons h f
  rw [heq, unpack_of_length (by simp)]

theorem exists_unpack_fill (before : List Formula) (k : Context) (after : List Formula) :
    ∃ (before' : List Formula) (k' : Context) (after' : List Formula), ∀ f, unpack [f] = [f] →
      unpack (before ++ k.fill f :: after) = before' ++ k'.fill f :: after' := by
  by_cases hsole : before = [] ∧ after = []
  · obtain ⟨rfl, rfl⟩ := hsole
    cases k with
    | hole => exact ⟨[], .hole, [], fun f hf => hf⟩
    | arg op before k after =>
      by_cases hcomma : op.name = Symbol.comma.name
      · exact ⟨before, k, after, fun f _ => if_pos hcomma⟩
      · exact ⟨[], .arg op before k after, [], fun f _ => unpack_app hcomma _⟩
  · exact ⟨before, k, after, fun f _ => unpack_append_cons hsole _⟩

variable {c : Catalog}

theorem exists_fill_of_build {name : String} {before after : List Formula} {k : Context}
    {f e : Formula} (h : c.build name (before ++ k.fill f :: after) = .ok e) :
    ∃ k' : Context, e = k'.fill f ∧
      ∀ g, c.build name (before ++ k.fill g :: after) = .ok (k'.fill g) := by
  unfold build at h ⊢
  split at h
  next op _ =>
    obtain ⟨hcount, rfl⟩ := make_eq_ok_iff.mp h
    exact ⟨.arg op before k after, rfl, fun g => make_of_admits (by simpa using hcount)⟩
  next => cases h

theorem combine_eq_build {name : String} {args args' : List Formula} (hargs : unpack args = args')
    (h : name = "" → 2 ≤ args'.length) :
    c.combine name args = c.build (if name = "" then Symbol.comma.name else name) args' := by
  simp only [combine, hargs]
  by_cases hname : name = ""
  · rw [if_pos hname, if_pos hname]
    rcases args' with - | ⟨first, - | ⟨second, others⟩⟩
    · exact absurd (h hname) (by simp)
    · exact absurd (h hname) (by simp)
    · rfl
  · rw [if_neg hname, if_neg hname]

theorem exists_fill_of_combine {name : String} {before after : List Formula} {k : Context}
    {f e : Formula} (hf : unpack [f] = [f])
    (h : c.combine name (before ++ k.fill f :: after) = .ok e) :
    ∃ k' : Context, e = k'.fill f ∧
      ∀ g, unpack [g] = [g] → c.combine name (before ++ k.fill g :: after) = .ok (k'.fill g) := by
  obtain ⟨before', k', after', hunpack⟩ := exists_unpack_fill before k after
  by_cases hone : name = "" ∧ before' = [] ∧ after' = []
  · -- a span without a name is what it encloses
    obtain ⟨rfl, rfl, rfl⟩ := hone
    have hsole : ∀ g, unpack [g] = [g] →
        c.combine "" (before ++ k.fill g :: after) = .ok (k'.fill g) := by
      intro g hg
      simp only [combine, hunpack g hg, List.nil_append, if_true]
    exact ⟨k', Except.ok.inj (h.symm.trans (hsole f hf)), hsole⟩
  · have hbuild : ∀ g, unpack [g] = [g] → c.combine name (before ++ k.fill g :: after) =
        c.build (if name = "" then Symbol.comma.name else name)
          (before' ++ k'.fill g :: after') := by
      intro g hg
      refine combine_eq_build (hunpack g hg) fun hname => ?_
      obtain ⟨_, _, _, hargs⟩ := exists_append_cons (fun hsole => hone ⟨hname, hsole⟩) (k'.fill g)
      simp [hargs]
    rw [hbuild f hf] at h
    obtain ⟨k₂, rfl, hk₂⟩ := exists_fill_of_build h
    exact ⟨k₂, rfl, fun g hg => (hbuild g hg).trans (hk₂ g)⟩

/-- The nodes around a place. -/
theorem exists_fill_of_plug {frames : List (Frame Formula)} {k : Context} {f e : Formula}
    (hf : unpack [f] = [f]) (h : c.builder.plug frames (k.fill f) = .ok e) :
    ∃ k' : Context, e = k'.fill f ∧
      ∀ g, unpack [g] = [g] → c.builder.plug frames (k.fill g) = .ok (k'.fill g) := by
  induction frames generalizing k with
  | nil =>
    cases h
    exact ⟨k, rfl, fun g _ => rfl⟩
  | cons frame frames ih =>
    obtain ⟨e₁, he₁, h⟩ := Except.bind_eq_ok_iff.mp h
    obtain ⟨k₁, rfl, hk₁⟩ := exists_fill_of_combine hf (Builder.apply_of_node he₁)
    obtain ⟨k₂, rfl, hk₂⟩ := ih h
    refine ⟨k₂, rfl, fun g hg => ?_⟩
    exact Except.bind_eq_ok_iff.mpr ⟨_, Builder.node_of_apply (hk₁ g hg), hk₂ g hg⟩

/-- A call is a node of the operation that is found under its name. -/
theorem call_of_combine {name : String} {a f : Formula} (hname : IsName name.toList)
    (h : standard.combine name [a] = .ok f) :
    ∃ op, standard.find? name = some op ∧ (op = .mean ∨ op = .median) ∧ f = .app op (unpack [a]) := by
  simp only [combine, if_neg (ne_empty_of_isName hname)] at h
  unfold build at h
  split at h
  next op hop =>
    obtain ⟨-, rfl⟩ := make_eq_ok_iff.mp h
    exact ⟨op, hop, find?_of_isName hname hop, rfl⟩
  next => cases h

theorem combine_call {name : String} {op : Operation} (hname : IsName name.toList)
    (hfind : standard.find? name = some op) {a : Formula} (ha : unpack [a] ≠ []) :
    standard.combine name [a] = .ok (.app op (unpack [a])) := by
  have hop := find?_of_isName hname hfind
  have hsame : standard.find? op.name = some op := by rcases hop with rfl | rfl <;> rfl
  simp only [combine, if_neg (ne_empty_of_isName hname)]
  rw [← build_average hop ha, build, build, hfind, hsame]

theorem unpack_ne_nil {f : Formula} (h : Written f) : unpack [f] ≠ [] := by
  rcases unpack_written h with ⟨args, rfl, hlen, -⟩ | ⟨hsole, -⟩
  · rw [unpack_comma]
    rintro rfl
    simp at hlen
  · rw [hsole]
    exact List.cons_ne_nil _ _

end Catalog

open Catalog Token

namespace Builder

variable {α : Type} {b : Builder α}

theorem parse_of_spells {cs : List Char} {ts : List Token} (h : Spells cs ts) :
    b.parse (String.ofList cs) = b.ofTokens b.parse ts := by
  rw [parse_eq, lex_ofList_iff.mpr h]

theorem exists_spells_of_parse {cs : List Char} {e : α} (h : b.parse (String.ofList cs) = .ok e) :
    ∃ ts, Spells cs ts := by
  rw [parse_eq] at h
  split at h
  next => cases h
  next ts hts => exact ⟨ts, lex_ofList_iff.mp hts⟩

theorem parse_blanks {ws : List Char} (h : Blanks ws) : b.parse (String.ofList ws) = .ok b.blank := by
  rw [parse_of_spells (spells_blanks h)]
  rfl

/-- The nodes around a span that is read, in a text. -/
theorem exists_plug_around {front inside back : List Char} {before after : List Token} {name : String}
    {e : α} (hopen : Opens front before name) (hfree : SpanFree before) (hback : Spells back after)
    (hin : Level inside) (h : b.parse (String.ofList (around front inside back)) = .ok e) :
    ∃ (held : List Operand) (frames : List (Frame α)),
      (held = [] ↔ ∀ t ∈ (lastPart before).getLast?, t.IsOp) ∧
        ∀ inside', Level inside' → b.parse (String.ofList (around front inside' back)) =
          b.ofChain b.parse (.span held name (String.ofList inside') (parts after).1) >>=
            b.plug frames := by
  rw [parse_of_spells (hopen.spells hin hback)] at h
  obtain ⟨held, frames, hheld, hframes⟩ := exists_plug_span hfree h
  refine ⟨held, frames, hheld, fun inside' hin' => ?_⟩
  rw [parse_of_spells (hopen.spells hin' hback), hframes]

/-- The node of a span with something in it. -/
theorem ofChain_span_ofList {inside : List Char} (hne : inside ≠ []) (held : List Operand)
    (name : String) (rest : List Token) :
    b.ofChain b.parse (.span held name (String.ofList inside) rest) =
      (do let arg ← b.parse (String.ofList inside); b.node name [arg]) :=
  ofChain_span_of_ne fun hall => ofList_ne_empty hne hall.2.2

/-- The nodes around a call that stands alone: without contents it is a span without a name. -/
theorem exists_plug_lone {name : String} {pre inside post : List Char} {e : α}
    (h : Lone name pre post) (hin : Level inside)
    (he : b.parse (String.ofList (around pre inside post)) = .ok e) :
    ∃ frames : List (Frame α),
      b.parse (String.ofList (around pre [] post)) = b.node "" [b.blank] >>= b.plug frames ∧
        ∀ inside', Level inside' → inside' ≠ [] →
          b.parse (String.ofList (around pre inside' post)) =
            (do let arg ← b.parse (String.ofList inside'); b.node name [arg]) >>= b.plug frames := by
  induction h generalizing e with
  | here hopen _ hfree hleft hback hright =>
    obtain ⟨held, frames, hheld, hframes⟩ :=
      exists_plug_around hopen hfree (lex_ofList_iff.mp hback) hin he
    obtain rfl := hheld.mpr hleft
    refine ⟨frames, ?_, fun inside' hin' hne' => ?_⟩
    · rw [hframes [] level_nil, ofChain, if_pos ⟨rfl, hright, rfl⟩]
    · rw [hframes inside' hin', ofChain_span_ofList hne']
  | @inside front back pre post before after outer hopen hfree hback h ih =>
    rw [around_inside] at he
    obtain ⟨held, frames, -, hframes⟩ :=
      exists_plug_around hopen hfree (lex_ofList_iff.mp hback) (h.level hin) he
    have hplug : ∀ inside', Level inside' →
        b.parse (String.ofList (around (front ++ '(' :: pre) inside' (post ++ ')' :: back))) =
          b.parse (String.ofList (around pre inside' post)) >>=
            b.plug (⟨outer, [], []⟩ :: frames) := by
      intro inside' hin'
      rw [around_inside, hframes _ (h.level hin'), ofChain_span_ofList (around_ne_nil _ _ _),
        bind_assoc]
      rfl
    rw [← around_inside, hplug inside hin] at he
    obtain ⟨arg, harg, -⟩ := Except.bind_eq_ok_iff.mp he
    obtain ⟨inner, hempty, hinner⟩ := ih harg
    refine ⟨inner ++ ⟨outer, [], []⟩ :: frames, ?_, fun inside' hin' hne' => ?_⟩
    · rw [hplug [] level_nil, hempty, bind_plug_append]
    · rw [hplug inside' hin', hinner inside' hin' hne', bind_plug_append]

end Builder

open Builder

namespace Catalog

variable {pre ws post : List Char} {e : Formula}

/-- The place of a call that stands alone: around it nothing depends on what the call is of, and without
contents a blank is in it. -/
theorem exists_fill_lone {name : String} (h : Lone name pre post) (hws : Blanks ws) (hne : ws ≠ [])
    (he : standard.parse (String.ofList (around pre ws post)) = .ok e) :
    ∃ (k : Context) (op : Operation), standard.find? name = some op ∧ (op = .mean ∨ op = .median) ∧
      e = k.fill (.app op [.blank]) ∧
      standard.parse (String.ofList (around pre [] post)) = .ok (k.fill .blank) ∧
      ∀ inside a, inside ≠ [] → standard.parse (String.ofList inside) = .ok a →
        standard.parse (String.ofList (around pre inside post)) =
          .ok (k.fill (.app op (unpack [a]))) := by
  have hlevel := level_of_noParen hws.noParen
  obtain ⟨frames, hempty, hframes⟩ := exists_plug_lone (b := standard.builder) h hlevel he
  -- the operation is known from the call that is there
  obtain ⟨f, hcall, hplug⟩ := Except.bind_eq_ok_iff.mp ((hframes ws hlevel hne).symm.trans he)
  rw [parse_blanks hws] at hcall
  obtain ⟨op, hfind, hop, rfl⟩ := call_of_combine h.isName (apply_of_node hcall)
  have hown : ∀ args, unpack [.app op args] = [.app op args] :=
    unpack_app (name_average_ne hop).1
  obtain ⟨k, rfl, hk⟩ := exists_fill_of_plug (k := .hole) (hown _) hplug
  refine ⟨k, op, hfind, hop, rfl, ?_, fun inside a hne' ha => ?_⟩
  · show standard.builder.parse _ = _
    rw [hempty]
    exact Except.bind_eq_ok_iff.mpr ⟨.blank, node_group_blank, hk .blank rfl⟩
  · obtain ⟨ts, hts⟩ := exists_spells_of_parse (b := standard.builder) ha
    have hnode := combine_call h.isName hfind (unpack_ne_nil (written_of_parse ha))
    show standard.builder.parse _ = _
    rw [hframes inside hts.level hne']
    refine Except.bind_eq_ok_iff.mpr ⟨_, ?_, hk _ (hown _)⟩
    exact Except.bind_eq_ok_iff.mpr ⟨a, ha, node_of_apply hnode⟩

theorem parse_eq_here {before after : List Token} {name : String} (h : ∀ name, ¬Lone name pre post)
    (hopen : Opens pre before name) (hback : Spells post after) (hws : Blanks ws) (hne : ws ≠ [])
    (he : standard.builder.parse (String.ofList (around pre ws post)) = .ok e) :
    standard.builder.parse (String.ofList (around pre [] post)) = .ok e := by
  have hnil : Blanks [] := by simp [Blanks]
  have hlevel := level_of_noParen hws.noParen
  by_cases hfree : SpanFree before
  · obtain ⟨held, frames, hheld, hframes⟩ := exists_plug_around hopen hfree hback hlevel he
    rw [hframes ws hlevel, ofChain_span_ofList hne, parse_blanks hws] at he
    rw [hframes [] level_nil, ← he]
    congr 1
    by_cases halone : held = [] ∧ (parts after).1 = []
    · -- only a span without a name may stand alone here
      obtain ⟨rfl, hright⟩ := halone
      have hname : name = "" := by
        by_contra hname
        exact h name (.here hopen hname hfree (hheld.mp rfl) (lex_ofList_iff.mpr hback) hright)
      rw [ofChain, if_pos ⟨rfl, hright, rfl⟩, hname]
      rfl
    · rw [ofChain_span_of_ne fun hall => halone ⟨hall.1, hall.2.1⟩, parse_blanks hnil]
  · rw [parse_of_spells (hopen.spells hlevel hback)] at he
    rw [parse_of_spells (hopen.spells level_nil hback)]
    exact ofTokens_hidden hfree he _

/-- A span that has no name, is not read or does not stand alone is read the same without its blanks. -/
theorem parse_eq_of_not_lone (h : ∀ name, ¬Lone name pre post) (hws : Blanks ws) (hne : ws ≠ [])
    (he : standard.builder.parse (String.ofList (around pre ws post)) = .ok e) :
    standard.builder.parse (String.ofList (around pre [] post)) = .ok e := by
  induction hn : pre.length using Nat.strongRecOn generalizing pre post e with
  | ind n ih =>
    obtain ⟨ts, hts⟩ := exists_spells_of_parse he
    obtain ⟨front, before, name, contents, back, after, rfl, hopen, hback, hplace⟩ :=
      hts.exists_around hws
    rcases hplace with ⟨rfl, rfl, rfl⟩ | ⟨pre', post', rfl, rfl, rfl⟩
    · exact parse_eq_here h hopen hback hws hne he
    · have hlevel : Level (around pre' ws post') := by
        have hvalid := hts.valid (span name (String.ofList (around pre' ws post'))) (by simp)
        rw [← String.toList_ofList (l := around pre' ws post')]
        exact hvalid.2
      have hlevel' := (level_around_iff hws).mp hlevel
      rw [around_inside] at he ⊢
      by_cases hfree : SpanFree before
      · have hlen : pre'.length < n := by
          rw [← hn, List.length_append, List.length_cons]
          omega
        have hin : ∀ name, ¬Lone name pre' post' :=
          fun name hlone => h name (.inside hopen hfree (lex_ofList_iff.mpr hback) hlone)
        obtain ⟨held, frames, -, hframes⟩ := exists_plug_around hopen hfree hback hlevel he
        rw [hframes _ hlevel, ofChain_span_ofList (around_ne_nil _ _ _)] at he
        obtain ⟨f, hf, hplug⟩ := Except.bind_eq_ok_iff.mp he
        obtain ⟨arg, harg, hnode⟩ := Except.bind_eq_ok_iff.mp hf
        rw [hframes _ hlevel', ofChain_span_ofList (around_ne_nil _ _ _), ih _ hlen hin harg rfl]
        exact Except.bind_eq_ok_iff.mpr ⟨f, hnode, hplug⟩
      · rw [parse_of_spells (hopen.spells hlevel hback)] at he
        rw [parse_of_spells (hopen.spells hlevel' hback)]
        exact ofTokens_hidden hfree he _

/-- The formula of a text stays the same when the blanks between two parentheses are taken out, unless
there are any and the parentheses are a lone call.  Then the call, a node over the blank, becomes the
blank, and nothing else changes: it is the place of the call that becomes blank, the one where all other
contents of these parentheses have their node too. -/
theorem parse_emptied (hws : Blanks ws)
    (h : standard.parse (String.ofList (around pre ws post)) = .ok e) :
    (standard.parse (String.ofList (around pre [] post)) = .ok e ↔
        ((∃ name, Lone name pre post) → ws = [])) ∧
      ∀ name, Lone name pre post → ws ≠ [] → ∃ (k : Context) (op : Operation),
        standard.find? name = some op ∧ (op = .mean ∨ op = .median) ∧
        e = k.fill (.app op [.blank]) ∧
        standard.parse (String.ofList (around pre [] post)) = .ok (k.fill .blank) ∧
        ∀ inside a, inside ≠ [] → standard.parse (String.ofList inside) = .ok a →
          standard.parse (String.ofList (around pre inside post)) =
            .ok (k.fill (.app op (unpack [a]))) := by
  refine ⟨⟨fun hsame ⟨name, hlone⟩ => ?_, fun hlone => ?_⟩,
    fun name hlone hne => exists_fill_lone hlone hws hne h⟩
  · by_contra hne
    obtain ⟨k, op, -, -, rfl, hempty, -⟩ := exists_fill_lone hlone hws hne h
    cases k.fill_inj (Except.ok.inj (hsame.symm.trans hempty))
  · by_cases hne : ws = []
    · rwa [hne] at h
    · exact parse_eq_of_not_lone (fun name hl => hne (hlone ⟨name, hl⟩)) hws hne h

/-- The mean of a blank, next to a constant in a median on the right of an operator. -/
def blankMean : Formula := .app .minus [.ref "A0", .app .median [.app .mean [.blank], .const 2]]

theorem blankMean_emptied :
    Blanks [' '] ∧
      standard.parse (String.ofList (around "A0 - Median(Mean".toList [' '] ", 2) B0".toList)) =
        .ok blankMean ∧
      Lone "Mean" "A0 - Median(Mean".toList ", 2) B0".toList ∧
      ∃ (k : Context) (op : Operation),
        standard.find? "Mean" = some op ∧ (op = .mean ∨ op = .median) ∧
        blankMean = k.fill (.app op [.blank]) ∧
        standard.parse (String.ofList (around "A0 - Median(Mean".toList [] ", 2) B0".toList)) =
          .ok (k.fill .blank) ∧
        ∀ inside a, inside ≠ [] → standard.parse (String.ofList inside) = .ok a →
          standard.parse
              (String.ofList (around "A0 - Median(Mean".toList inside ", 2) B0".toList)) =
            .ok (k.fill (.app op (unpack [a]))) := by
  have hws : Blanks [' '] := by simp [Blanks, isBlank]
  have hparse : standard.parse
      (String.ofList (around "A0 - Median(Mean".toList [' '] ", 2) B0".toList)) =
        .ok blankMean := by with_unfolding_all rfl
  have hinner : Opens "Mean".toList [] "Mean" := by
    unfold Opens
    with_unfolding_all rfl
  have houter : Opens "A0 - Median".toList [.operand (.ref "A0"), .op .minus] "Median" := by
    unfold Opens
    with_unfolding_all rfl
  have hright : lex (String.ofList ", 2".toList) = .ok [.op .comma, .operand (.num "2")] := by with_unfolding_all rfl
  have hafter : lex (String.ofList " B0".toList) = .ok [.operand (.ref "B0")] := by with_unfolding_all rfl
  have hmean : Lone "Mean" "Mean".toList ", 2".toList :=
    .here hinner (by decide) (by simp [SpanFree, lastPart]) (by simp [lastPart]) hright rfl
  have hlone : Lone "Mean" "A0 - Median(Mean".toList ", 2) B0".toList :=
    .inside houter (by simp [SpanFree, lastPart, Token.parts]) hafter hmean
  exact ⟨hws, hparse, hlone, (parse_emptied hws hparse).2 "Mean" hlone (by simp)⟩

/-- The blanks in a call of blanks do matter. -/
theorem emptied_call_differs :
    ¬∀ (pre ws post : List Char) (e : Formula), Blanks ws →
      standard.parse (String.ofList (around pre ws post)) = .ok e →
      standard.parse (String.ofList (around pre [] post)) = .ok e := by
  intro h
  have hws : Blanks [' '] := by simp [Blanks, isBlank]
  have hblank : standard.parse (String.ofList (around "MEAN".toList [' '] [])) =
      .ok (.app .mean [.blank]) := by with_unfolding_all rfl
  have hempty : standard.parse (String.ofList (around "MEAN".toList [] [])) = .ok .blank := by with_unfolding_all rfl
  have hsame := h _ _ _ _ hws hblank
  rw [hempty] at hsame
  cases hsame

end Catalog

end FormulaGrid
