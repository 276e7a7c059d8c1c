import FormulaGrid.Proofs.Reread
import FormulaGrid.Proofs.Spelling

/-!
# Proofs.Components — texts between commas

Texts without commas between their tokens keep their tokens when they are joined by commas
(`Token.lex_join`).  So each of them is read as if it stood alone, and the node of the joined text, or of
a call with that text in its parentheses, is made from theirs (`Catalog.parse_join_and_call`).
-/

namespace Except

variable {ε α β : Type}

theorem mapM_eq_ok_of_forall₂ {f : α → Except ε β} {as : List α} {rs : List β}
    (h : List.Forall₂ (fun a r => f a = .ok r) as rs) : as.mapM f = .ok rs := by
  induction h with
  | nil => rfl
  | cons hr _ ih => exact mapM_cons_eq_ok_iff.mpr ⟨_, _, hr, ih, rfl⟩

/-- The first failure on the way is that of the whole list. -/
theorem mapM_eq_error {f : α → Except ε β} {done : List α} {a : α} {e : ε}
    (hdone : ∀ x ∈ done, ∃ r, f x = .ok r) (ha : f a = .error e) (rest : List α) :
    (done ++ a :: rest).mapM f = .error e := by
  induction done with
  | nil =>
    rw [List.nil_append, List.mapM_cons, ha]
    rfl
  | cons x done ih =>
    obtain ⟨r, hr⟩ := hdone x (by simp)
    rw [List.cons_append, List.mapM_cons, hr, ih fun y hy => hdone y (by simp [hy])]
    rfl

end Except

namespace FormulaGrid

namespace Token

/-- A text with tokens, none of which is a comma. -/
def Component (text : String) : Prop := ∃ ts, lex text = .ok ts ∧ op .comma ∉ ts

theorem stops_comma (cs : List Char) (t : Token) : t.Stops (',' :: cs) :=
  (Formula.ends_comma cs).stops t

/-- Texts joined by commas have their tokens, with commas between them. -/
theorem spells_join {texts : List String} {tss : List (List Token)}
    (h : List.Forall₂ (fun text ts => lex text = .ok ts) texts tss) :
    Spells (",".intercalate texts).toList ([op .comma].intercalate tss) := by
  induction h with
  | nil => exact .nil
  | @cons text ts texts tss hts htexts ih =>
    have hspells := spells_iff_lex.mp hts
    cases htexts with
    | nil => simpa using hspells
    | cons =>
      have hcomma := Spells.token (t := .op .comma) trivial trivial ih
      have happend := hspells.append hcomma fun t _ => stops_comma _ t
      rw [String.intercalate_cons_cons, List.intercalate_cons_cons]
      simpa [Token.text, Symbol.char] using happend

theorem lex_join {texts : List String} {tss : List (List Token)}
    (h : List.Forall₂ (fun text ts => lex text = .ok ts) texts tss) :
    lex (",".intercalate texts) = .ok ([op .comma].intercalate tss) :=
  spells_iff_lex.mpr (spells_join h)

theorem exists_tokens {texts : List String} (h : ∀ text ∈ texts, Component text) :
    ∃ tss, List.Forall₂ (fun text ts => lex text = .ok ts) texts tss ∧
      ∀ ts ∈ tss, op .comma ∉ ts := by
  induction texts with
  | nil => exact ⟨[], .nil, by simp⟩
  | cons text texts ih =>
    obtain ⟨⟨ts, hts, hcomma⟩, hrest⟩ := List.forall_mem_cons.mp h
    obtain ⟨tss, htss, hcommas⟩ := ih hrest
    exact ⟨ts :: tss, .cons hts htss, List.forall_mem_cons.mpr ⟨hcomma, hcommas⟩⟩

end Token

namespace Builder

variable {α : Type} (b : Builder α)

/-- A text without commas between its tokens is read as a chain. -/
theorem parse_component {text : String} {ts : List Token} (hts : Token.lex text = .ok ts)
    (hcomma : Token.op .comma ∉ ts) : b.parse text = b.ofChain b.parse (.ofTokens ts) := by
  rw [parse_eq, hts]
  simp only [ofTokens, Token.parts_of_no_comma hcomma]

theorem mapM_ofChain_eq {texts : List String} {tss : List (List Token)}
    (h : List.Forall₂ (fun text ts => Token.lex text = .ok ts) texts tss)
    (hcomma : ∀ ts ∈ tss, Token.op .comma ∉ ts) :
    tss.mapM (fun ts => b.ofChain b.parse (.ofTokens ts)) = texts.mapM b.parse := by
  induction h with
  | nil => rfl
  | cons hts _ ih =>
    obtain ⟨hfirst, hrest⟩ := List.forall_mem_cons.mp hcomma
    rw [List.mapM_cons, List.mapM_cons, ih hrest, b.parse_component hts hfirst]

/-- Texts joined by commas are read one by one, from left to right, and then put into one node. -/
theorem parse_join {texts : List String} (hlen : 2 ≤ texts.length)
    (h : ∀ text ∈ texts, Token.Component text) :
    b.parse (",".intercalate texts) = texts.mapM b.parse >>= b.node Symbol.comma.name := by
  obtain ⟨tss, htss, hcomma⟩ := Token.exists_tokens h
  rw [parse_eq, Token.lex_join htss, ← b.mapM_ofChain_eq htss hcomma]
  match tss, htss.length_eq with
  | p :: q :: ps, _ =>
    have hparts := Token.parts_intercalate hcomma
    simp only [ofTokens, hparts]
  | [_], hone => simp [hone] at hlen
  | [], hnil => simp [hnil] at hlen

/-- A text in the parentheses of a call is read first, unless it is empty. -/
theorem parse_call {name text : String} {ts : List Token} (hname : IsName name.toList)
    (hts : Token.lex text = .ok ts) (hne : text ≠ "") :
    b.parse (name ++ "(" ++ text ++ ")") = b.parse text >>= fun arg => b.node name [arg] := by
  have hspan : b.parse (name ++ "(" ++ text ++ ")") =
      b.ofChain b.parse (.span [] name text []) := by
    rw [parse_eq, Token.lex_span (.inr hname) hts]
    rfl
  rw [hspan, ofChain, if_neg fun hall => hne hall.2.2]

end Builder

namespace Catalog

open Builder

theorem parse_join_eq {texts : List String} (hlen : 2 ≤ texts.length)
    (h : ∀ text ∈ texts, Token.Component text) :
    standard.parse (",".intercalate texts) = (texts.mapM standard.parse).map (.app .comma) := by
  refine (parse_join standard.builder hlen h).trans ?_
  show texts.mapM standard.parse >>= standard.builder.node Symbol.comma.name = _
  cases hmap : texts.mapM standard.parse with
  | error e => rfl
  | ok fs =>
    refine node_symbol .comma ?_
    rwa [Except.length_of_mapM hmap]

theorem join_ne_empty {texts : List String} (hlen : 2 ≤ texts.length) :
    ",".intercalate texts ≠ "" := by
  intro he
  have hchars := congrArg String.toList he
  match texts, hlen with
  | a :: b :: rest, _ => simp [String.intercalate_cons_cons] at hchars

theorem parse_call_join_eq {op : Operation} (hop : op = .mean ∨ op = .median) {texts : List String}
    (hlen : 2 ≤ texts.length) (h : ∀ text ∈ texts, Token.Component text) :
    standard.parse (op.name ++ "(" ++ ",".intercalate texts ++ ")") =
      (texts.mapM standard.parse).map (.app op) := by
  obtain ⟨tss, htss, -⟩ := Token.exists_tokens h
  refine (parse_call standard.builder (Formula.isName_average hop) (Token.lex_join htss)
    (join_ne_empty hlen)).trans ?_
  show (standard.parse (",".intercalate texts) >>= fun arg => standard.builder.node op.name [arg]) = _
  rw [parse_join_eq hlen h]
  cases hmap : texts.mapM standard.parse with
  | error e => rfl
  | ok fs =>
    have hne : fs ≠ [] := by
      rintro rfl
      have hzero := Except.length_of_mapM hmap
      simp at hzero
      omega
    exact Formula.node_average hop (unpack_comma fs) hne

/-- Two or more texts, none with a comma between its tokens, stand between commas, in the parentheses of
a mean or alone.  If all of them are formula texts, the node of the mean and the comma node have their
formulas as arguments, in order; otherwise both texts fail like the first one that is none. -/
theorem parse_join_and_call {texts : List String} (hlen : 2 ≤ texts.length)
    (h : ∀ text ∈ texts, Token.Component text) :
    (∀ fs, List.Forall₂ (fun text f => standard.parse text = .ok f) texts fs →
      standard.parse ("MEAN(" ++ ",".intercalate texts ++ ")") = .ok (.app .mean fs) ∧
        standard.parse (",".intercalate texts) = .ok (.app .comma fs)) ∧
      ∀ done text rest e, texts = done ++ text :: rest →
        (∀ t ∈ done, ∃ f, standard.parse t = .ok f) → standard.parse text = .error e →
        standard.parse ("MEAN(" ++ ",".intercalate texts ++ ")") = .error e ∧
          standard.parse (",".intercalate texts) = .error e := by
  have hcall := parse_call_join_eq (.inl rfl) hlen h
  have hjoin := parse_join_eq hlen h
  constructor
  · intro fs hfs
    have hmap := Except.mapM_eq_ok_of_forall₂ hfs
    rw [hmap] at hcall hjoin
    exact ⟨hcall, hjoin⟩
  · rintro done text rest e rfl hdone he
    have hmap := Except.mapM_eq_error hdone he rest
    rw [hmap] at hcall hjoin
    exact ⟨hcall, hjoin⟩

theorem mixed_components_read :
    (standard.parse ("MEAN(" ++ ",".intercalate ["(1, 2)", " ", "3"] ++ ")") =
        .ok (.app .mean [.app .comma [.const 1, .const 2], .blank, .const 3]) ∧
      standard.parse (",".intercalate ["(1, 2)", " ", "3"]) =
        .ok (.app .comma [.app .comma [.const 1, .const 2], .blank, .const 3])) ∧
    standard.parse ("MEAN(" ++ ",".intercalate [" ", "4 5", "F(1)"] ++ ")") =
        .error (.noOperator ["4", "5"]) ∧
      standard.parse (",".intercalate [" ", "4 5", "F(1)"]) = .error (.noOperator ["4", "5"]) := by
  have hgroup : Token.Component "(1, 2)" := ⟨[.span "" "1, 2"], by with_unfolding_all rfl, by decide⟩
  have hblank : Token.Component " " := ⟨[], by with_unfolding_all rfl, by decide⟩
  have hthree : Token.Component "3" := ⟨[.operand (.num "3")], by with_unfolding_all rfl, by decide⟩
  have htwo : Token.Component "4 5" :=
    ⟨[.operand (.num "4"), .operand (.num "5")], by with_unfolding_all rfl, by decide⟩
  have hunknown : Token.Component "F(1)" := ⟨[.span "F" "1"], by with_unfolding_all rfl, by decide⟩
  constructor
  · have hone : standard.parse "(1, 2)" = .ok (.app .comma [.const 1, .const 2]) := by with_unfolding_all rfl
    have hempty : standard.parse " " = .ok .blank := by with_unfolding_all rfl
    have hlast : standard.parse "3" = .ok (.const 3) := by with_unfolding_all rfl
    exact (parse_join_and_call (by decide) (by simp [hgroup, hblank, hthree])).1 _
      (.cons hone (.cons hempty (.cons hlast .nil)))
  · have hempty : standard.parse " " = .ok .blank := by with_unfolding_all rfl
    have hfail : standard.parse "4 5" = .error (.noOperator ["4", "5"]) := by with_unfolding_all rfl
    exact (parse_join_and_call (by decide) (by simp [hblank, htwo, hunknown])).2 [" "] "4 5"
      ["F(1)"] _ rfl (by simp [hempty]) hfail

end Catalog

end FormulaGrid
