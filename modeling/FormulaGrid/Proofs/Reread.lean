import FormulaGrid.Formula.Render
import FormulaGrid.Proofs.ParsedShape

/-!
# Proofs.Reread — the text of a formula read again

The text of a formula that came out of a text is again a formula text.  What it is read as is
`Formula.reread`: comma nodes among arguments are taken apart, an average of nothing is blank, and an
operator between nothing and nothing stands alone.  Main statement: `parse_render`.
-/

namespace FormulaGrid

open Catalog
open Token (Level Lexes level_nil level_of_noParen)

namespace Formula

/-- What an operation over `args` is read back as, where its arguments come back as `rereads`. -/
def reform (op : Operation) (args rereads : List Formula) : Formula :=
  match op.style, args with
  | .between, [.blank, .blank] => .app op [.blank]
  | .between, _ => .app op rereads
  | .call, [.blank] => .blank
  | _, _ => .app op (rereads.flatMap fun r => unpack [r])

mutual

/-- What the text of a formula is read as. -/
def reread : Formula → Formula
  | blank => blank
  | const n => const n
  | ref name => ref name
  | app op args => reform op args (rereadAll args)

/-- What the texts of several formulas are read as. -/
def rereadAll : List Formula → List Formula
  | [] => []
  | f :: fs => reread f :: rereadAll fs

end

theorem rereadAll_eq_map (fs : List Formula) : rereadAll fs = fs.map reread := by
  induction fs with
  | nil => rfl
  | cons f fs ih => rw [rereadAll, ih, List.map_cons]

@[simp] theorem reread_app (op : Operation) (args : List Formula) :
    (app op args).reread = reform op args (args.map reread) := by
  rw [reread, rereadAll_eq_map]

theorem reread_leaf {f : Formula} (h : f.IsLeaf) : f.reread = f := by
  cases f with
  | app => exact absurd h id
  | blank | const | ref => rw [reread]

/-- What a formula is read as at a place where a comma may follow: its parts. -/
def parts (f : Formula) : List Formula := unpack [f.reread]

/-! ### The characters of a text -/

theorem chars_const_of_nonneg {n : Int64} (h : 0 ≤ n.toInt) :
    (const n).chars = Decimal.ofNat n.toInt.toNat := by
  rw [chars_const, Decimal.ofInt64]
  obtain ⟨m, hm⟩ := Int.eq_ofNat_of_zero_le h
  rw [hm]
  rfl

theorem isDigits_ofNat (n : Nat) : IsDigits (Decimal.ofNat n) :=
  ⟨Decimal.ofNat_ne_nil n, fun _ => Decimal.isDigit_of_mem_ofNat⟩

theorem style_symbol {s : Symbol} (h : s ≠ .comma) : s.operation.style = .between := by
  cases s <;> first | exact absurd rfl h | rfl

theorem name_symbol (s : Symbol) : s.operation.name = s.name := by cases s <;> rfl

theorem chars_alone {s : Symbol} (h : s ≠ .comma) :
    (app s.operation [blank]).chars = [s.char] := by
  simp [chars_app, style_symbol h, between, name_symbol, Symbol.name, operand, needsParens]

theorem chars_pair {s : Symbol} (h : s ≠ .comma) (l r : Formula) :
    (app s.operation [l, r]).chars =
      l.operand l.chars ++ ' ' :: s.char :: ' ' :: r.operand r.chars := by
  simp [chars_app, style_symbol h, between, name_symbol, Symbol.name, List.intercalate_cons_cons]

theorem style_average {op : Operation} (h : op = .mean ∨ op = .median) : op.style = .call := by
  rcases h with rfl | rfl <;> rfl

theorem chars_call {op : Operation} (h : op.style = .call) (args : List Formula) :
    (app op args).chars = op.name.toList ++ parens (commas (args.map chars)) := by
  simp [chars_app, h]

theorem chars_list (args : List Formula) :
    (app .comma args).chars = commas (args.map chars) := by
  rw [chars_app]
  rfl

theorem operand_leaf {f : Formula} (h : f.IsLeaf) : f.operand f.chars = f.chars := by
  cases f with
  | app => exact absurd h id
  | blank | const | ref => rfl

theorem operand_app (op : Operation) (args : List Formula) (cs : List Char) :
    (app op args).operand cs = if op.style = .call then cs else Formula.parens cs := by
  cases h : op.style <;> simp [operand, needsParens, h]

theorem isName_average {op : Operation} (h : op = .mean ∨ op = .median) : IsName op.name.toList := by
  rcases h with rfl | rfl
  · exact ⟨rfl, List.all_eq_true.mp rfl⟩
  · exact ⟨rfl, List.all_eq_true.mp rfl⟩

/-! ### Parentheses match -/

theorem level_commas {texts : List (List Char)} (h : ∀ cs ∈ texts, Level cs) :
    Level (commas texts) := by
  induction texts with
  | nil => exact level_nil
  | cons cs texts ih =>
    cases texts with
    | nil => simpa [commas] using h cs (by simp)
    | cons cs' texts =>
      have hsep : Level [',', ' '] := level_of_noParen (by simp [NoParen])
      have hrest := ih fun x hx => h x (by simp [hx])
      rw [commas, List.intercalate_cons_cons]
      exact ((h cs (by simp)).append hsep).append hrest

theorem level_chars {f : Formula} (h : Written f) : Level f.chars := by
  have hoperand : ∀ g : Formula, Level g.chars → Level (g.operand g.chars) := by
    intro g hg
    unfold operand
    split
    · exact hg.parens
    · exact hg
  induction h with
  | blank => simpa using level_nil
  | const h =>
    rw [chars_const_of_nonneg h]
    exact level_of_noParen fun c hc => noParen_of_isDigit (Decimal.isDigit_of_mem_ofNat hc)
  | ref h =>
    rw [chars_ref]
    exact level_of_noParen h.noParen
  | @alone s hs =>
    rw [chars_alone hs]
    exact level_of_noParen (by cases s <;> simp [NoParen, Symbol.char])
  | @pair s hs l r _ _ _ ihl ihr =>
    have hsep : Level [' ', s.char, ' '] :=
      level_of_noParen (by cases s <;> simp [NoParen, Symbol.char])
    rw [chars_pair hs]
    simpa using ((hoperand l ihl).append hsep).append (hoperand r ihr)
  | call hop _ _ _ ih =>
    rw [chars_call (style_average hop)]
    refine (level_of_noParen (isName_average hop).noParen).append (Level.parens ?_)
    exact level_commas (by simpa using ih)
  | list _ _ ih =>
    rw [chars_list]
    exact level_commas (by simpa using ih)

/-! ### Operands -/

/-- The operands before an operator with the formula on its left. -/
def held : Formula → List Operand
  | blank => []
  | const n => [.num (String.ofList (Decimal.ofInt64 n))]
  | ref name => [.ref name]
  | app _ _ => []

/-- The tokens of a formula as an operand: a sole one, or none for a blank. -/
def operandTokens : Formula → List Token
  | app op args =>
    if op.style = .call then [.span op.name (String.ofList (commas (args.map chars)))]
    else [.span "" (String.ofList (app op args).chars)]
  | f => f.held.map .operand

/-- A text ends here, or goes on with a comma or a space. -/
def Ends (rest : List Char) : Prop := ∀ c ∈ rest.head?, c = ',' ∨ c = ' '

theorem Ends.stops {rest : List Char} (h : Ends rest) (t : Token) : t.Stops rest := by
  have hdigit : ∀ c ∈ rest.head?, c.isDigit = false := by
    intro c hc
    rcases h c hc with rfl | rfl <;> rfl
  have hname : ∀ c ∈ rest.head?, isNameChar c = false ∧ c ≠ '(' := by
    intro c hc
    rcases h c hc with rfl | rfl <;> exact ⟨rfl, by decide⟩
  cases t with
  | operand o =>
    cases o with
    | ref => exact hname
    | num => exact hdigit
  | op | span => exact trivial

theorem lexes_num {n : Int64} (h : 0 ≤ n.toInt) {rest : List Char} {ts : List Token}
    (hrest : Ends rest) (hts : Lexes rest ts) :
    Lexes ((const n).chars ++ rest)
      (.operand (.num (String.ofList (Decimal.ofInt64 n))) :: ts) := by
  have hdigits : Decimal.ofInt64 n = Decimal.ofNat n.toInt.toNat := by
    rw [← chars_const, chars_const_of_nonneg h]
  have hvalid : Token.Valid (.operand (.num (String.ofList (Decimal.ofInt64 n)))) := by
    rw [Token.Valid, String.toList_ofList, hdigits]
    exact isDigits_ofNat _
  simpa [Token.text, Operand.text] using Lexes.token hvalid (hrest.stops _) hts

theorem lexes_span (name : String) {cs : List Char} (hname : name = "" ∨ IsName name.toList)
    (hcs : Level cs) {rest : List Char} {ts : List Token} (hts : Lexes rest ts) :
    Lexes (name.toList ++ parens cs ++ rest) (.span name (String.ofList cs) :: ts) := by
  have hvalid : Token.Valid (.span name (String.ofList cs)) :=
    ⟨hname, by rwa [String.toList_ofList]⟩
  simpa [Token.text, parens] using Lexes.token hvalid trivial hts

theorem lexes_operand {f : Formula} (h : Written f) {rest : List Char} {ts : List Token}
    (hrest : Ends rest) (hts : Lexes rest ts) :
    Lexes (f.operand f.chars ++ rest) (f.operandTokens ++ ts) := by
  cases h with
  | blank => simpa [operand, needsParens, operandTokens, held] using hts
  | const h => simpa [operand, needsParens, operandTokens, held] using lexes_num h hrest hts
  | @ref name h =>
    have hvalid : Token.Valid (.operand (.ref name)) := h
    simpa [operand, needsParens, operandTokens, held, Token.text, Operand.text] using
      Lexes.token hvalid (hrest.stops _) hts
  | @alone s hs =>
    have hlevel := level_chars (.alone hs)
    rw [operand_app, style_symbol hs, operandTokens, style_symbol hs]
    exact lexes_span "" (.inl rfl) hlevel hts
  | @pair s hs l r hleaf hl hr =>
    have hlevel := level_chars (.pair hs hleaf hl hr)
    rw [operand_app, style_symbol hs, operandTokens, style_symbol hs]
    exact lexes_span "" (.inl rfl) hlevel hts
  | @call op hop args _ hargs _ =>
    have hlevel : Level (commas (args.map chars)) :=
      level_commas (by simpa using fun a ha => level_chars (hargs a ha))
    rw [operand_app, operandTokens, if_pos (style_average hop), if_pos (style_average hop),
      chars_call (style_average hop)]
    exact lexes_span op.name (.inr (isName_average hop)) hlevel hts
  | @list args hlen hargs =>
    have hlevel := level_chars (.list hlen hargs)
    exact lexes_span "" (.inl rfl) hlevel hts

end Formula

/-! ### Parts between commas -/

theorem intercalate_append {α : Type} {sep : List α} {xs ys : List (List α)} (hx : xs ≠ [])
    (hy : ys ≠ []) : sep.intercalate (xs ++ ys) = sep.intercalate xs ++ sep ++ sep.intercalate ys := by
  induction xs with
  | nil => exact absurd rfl hx
  | cons x xs ih =>
    cases xs with
    | nil => simp [List.intercalate_cons_of_ne_nil hy]
    | cons x' xs =>
      have h := ih (by simp)
      rw [List.cons_append, List.intercalate_cons_of_ne_nil (by simp), h,
        List.intercalate_cons_cons]
      simp

/-- A list is no longer than its members' parts together when each member has a part. -/
theorem length_le_length_flatMap {α β : Type} {p : α → List β} {as : List α}
    (h : ∀ a ∈ as, 0 < (p a).length) : as.length ≤ (as.flatMap p).length := by
  induction as with
  | nil => simp
  | cons a as ih =>
    have ha := h a (by simp)
    have hrest := ih fun x hx => h x (by simp [hx])
    rw [List.flatMap_cons, List.length_append, List.length_cons]
    omega

namespace Token

theorem parts_of_no_comma {p : List Token} (h : op .comma ∉ p) : parts p = (p, []) := by
  induction p with
  | nil => rfl
  | cons t p ih =>
    obtain ⟨ht, hp⟩ := not_or.mp (mt List.mem_cons.mpr h)
    rw [parts_cons (Ne.symm ht), ih hp]

theorem parts_append_comma {p : List Token} (h : op .comma ∉ p) (ts : List Token) :
    parts (p ++ op .comma :: ts) = (p, (parts ts).1 :: (parts ts).2) := by
  induction p with
  | nil => rfl
  | cons t p ih =>
    obtain ⟨ht, hp⟩ := not_or.mp (mt List.mem_cons.mpr h)
    rw [List.cons_append, parts_cons (Ne.symm ht), ih hp]

theorem parts_intercalate {p : List Token} {ps : List (List Token)}
    (h : ∀ q ∈ p :: ps, op .comma ∉ q) : parts ([op .comma].intercalate (p :: ps)) = (p, ps) := by
  induction ps generalizing p with
  | nil => simpa using parts_of_no_comma (h p (by simp))
  | cons q ps ih =>
    rw [List.intercalate_cons_cons, List.append_assoc, List.singleton_append,
      parts_append_comma (h p (by simp)), ih fun x hx => h x (by simp [hx])]

end Token

namespace Formula

/-- The formula with the given parts: a sole one itself, or a comma node over several. -/
def gather : List Formula → Formula
  | [f] => f
  | fs => app .comma fs

theorem gather_of_length {fs : List Formula} (h : 2 ≤ fs.length) : gather fs = app .comma fs := by
  match fs, h with
  | _ :: _ :: _, _ => rfl

/-- The text, where it ends or goes on with a comma or a space, is read as the formulas `fs` with
commas between them. -/
def Reads (cs : List Char) (fs : List Formula) : Prop :=
  ∃ ps : List (List Token), ps ≠ [] ∧ (∀ p ∈ ps, Token.op .comma ∉ p) ∧
    (∀ rest ts, Ends rest → Lexes rest ts →
      Lexes (cs ++ rest) ([Token.op .comma].intercalate ps ++ ts)) ∧
    ps.mapM (fun p => standard.builder.ofChain standard.builder.parse (.ofTokens p)) = .ok fs

theorem Reads.length_pos {cs : List Char} {fs : List Formula} (h : Reads cs fs) :
    0 < fs.length := by
  obtain ⟨ps, hne, -, -, hfs⟩ := h
  rw [Except.length_of_mapM hfs]
  exact List.length_pos_iff.mpr hne

theorem reads_part {cs : List Char} {p : List Token} {f : Formula} (hp : Token.op .comma ∉ p)
    (hlex : ∀ rest ts, Ends rest → Lexes rest ts → Lexes (cs ++ rest) (p ++ ts))
    (hf : standard.builder.ofChain standard.builder.parse (.ofTokens p) = .ok f) :
    Reads cs [f] := by
  refine ⟨[p], by simp, by simpa using hp, by simpa using hlex, ?_⟩
  exact Except.mapM_cons_eq_ok_iff.mpr ⟨f, [], hf, rfl, rfl⟩

theorem ends_comma (cs : List Char) : Ends (',' :: cs) := by simp [Ends]

theorem Reads.append {cs cs' : List Char} {fs fs' : List Formula} (h : Reads cs fs)
    (h' : Reads cs' fs') : Reads (cs ++ [',', ' '] ++ cs') (fs ++ fs') := by
  obtain ⟨ps, hne, hcomma, hlex, hfs⟩ := h
  obtain ⟨ps', hne', hcomma', hlex', hfs'⟩ := h'
  refine ⟨ps ++ ps', by simp [hne], ?_, ?_, ?_⟩
  · intro p hp
    rcases List.mem_append.mp hp with hp | hp
    · exact hcomma p hp
    · exact hcomma' p hp
  · intro rest ts hrest hts
    have hcs' := (hlex' rest ts hrest hts).blank (c := ' ') (by decide)
    have hsep := hcs'.token (t := .op .comma) trivial trivial
    have hcs := hlex _ _ (ends_comma _) hsep
    rw [intercalate_append hne hne']
    simpa [Token.text, Symbol.char] using hcs
  · rw [List.mapM_append, hfs, hfs']
    rfl

/-- The whole of a text is read as its parts gathered. -/
theorem Reads.parse_eq {cs : List Char} {fs : List Formula} (h : Reads cs fs) :
    standard.parse (String.ofList cs) = .ok (gather fs) := by
  obtain ⟨ps, hne, hcomma, hlex, hfs⟩ := h
  have hlexes := hlex [] [] (by simp [Ends]) Lexes.nil
  simp only [List.append_nil] at hlexes
  show standard.builder.parse (String.ofList cs) = _
  rw [Builder.parse_eq, hlexes.lex_eq]
  cases ps with
  | nil => exact absurd rfl hne
  | cons p ps =>
    have hparts := Token.parts_intercalate hcomma
    cases ps with
    | nil =>
      simp only [Builder.ofTokens, hparts]
      obtain ⟨f, fs', hf, hfs', rfl⟩ := Except.mapM_cons_eq_ok_iff.mp hfs
      obtain rfl : [] = fs' := Except.ok.inj hfs'
      exact hf
    | cons q ps =>
      have hlen : 2 ≤ fs.length := by
        rw [Except.length_of_mapM hfs]
        simp
      simp only [Builder.ofTokens, hparts, hfs]
      rw [gather_of_length hlen]
      exact Builder.node_symbol .comma hlen

/-! ### Operands are read as single tokens -/

theorem toInt64?_ofInt64 {n : Int64} (h : 0 ≤ n.toInt) :
    Decimal.toInt64? (Decimal.ofInt64 n) = some n := by
  have hchars : Decimal.ofInt64 n = Decimal.ofNat n.toInt.toNat := by
    rw [← chars_const, chars_const_of_nonneg h]
  have hlt : n.toInt.toNat < 0x8000000000000000 := by
    have := n.toInt_lt
    omega
  rw [hchars, Decimal.toInt64?, Decimal.toNat_ofNat, if_pos hlt]
  refine congrArg some (Int64.toInt_inj.mp ?_)
  rw [Int64.toInt_ofNat_of_lt hlt]
  omega

theorem ofOperands_held {f : Formula} (h : Written f) (hleaf : f.IsLeaf) :
    standard.builder.ofOperands f.held = .ok f := by
  cases h with
  | blank => rfl
  | const h => simp [held, Builder.ofOperands, String.toList_ofList, toInt64?_ofInt64 h, builder]
  | ref => rfl
  | alone | pair | call | list => exact absurd hleaf id

theorem operandTokens_leaf {f : Formula} (h : f.IsLeaf) :
    f.operandTokens = f.held.map .operand := by
  cases f with
  | app => exact absurd h id
  | blank | const | ref => rfl

theorem ofTokens_held_append (os : List Operand) (s : Symbol) (ts : List Token) :
    Chain.ofTokens (os.map .operand ++ .op s :: ts) = .op os s (.ofTokens ts) := by
  induction os with
  | nil => rfl
  | cons o os ih => rw [List.map_cons, List.cons_append, Chain.ofTokens, ih, Chain.hold]

theorem ofTokens_held (os : List Operand) : Chain.ofTokens (os.map .operand) = .last os := by
  induction os with
  | nil => rfl
  | cons o os ih => rw [List.map_cons, Chain.ofTokens, ih, Chain.hold]

theorem comma_not_mem_operandTokens (f : Formula) : Token.op .comma ∉ f.operandTokens := by
  cases f with
  | app op args =>
    rw [operandTokens]
    split <;> simp
  | blank | const | ref => simp [operandTokens, held]

theorem ofList_ne_empty {cs : List Char} (h : cs ≠ []) : String.ofList cs ≠ "" := by
  intro he
  have := congrArg String.toList he
  rw [String.toList_ofList] at this
  exact h this

/-- A formula in parentheses is read as the formula. -/
theorem ofChain_group {f : Formula} (hne : f.chars ≠ [])
    (h : standard.parse f.render = .ok f.reread) :
    standard.builder.ofChain standard.builder.parse (.span [] "" f.render []) = .ok f.reread := by
  have hnode := Builder.node_group (Builder.written_of_parse h)
  have hinner : standard.builder.parse f.render = .ok f.reread := h
  rw [Builder.ofChain, if_neg fun hc => ofList_ne_empty hne hc.2.2, hinner]
  exact hnode

/-! ### Every written formula is read again -/

/-- The text of the formula is read as `reread` says, alone, between commas and as an operand. -/
structure Rereads (f : Formula) : Prop where
  reads : Reads f.chars f.parts
  gather_parts : gather f.parts = f.reread
  operand : standard.builder.ofChain standard.builder.parse (.ofTokens f.operandTokens) =
    .ok f.reread

theorem Rereads.parse_eq {f : Formula} (h : Rereads f) : standard.parse f.render = .ok f.reread :=
  h.gather_parts ▸ h.reads.parse_eq

theorem Rereads.of_operand {f : Formula} (hw : Written f) (hchars : f.operand f.chars = f.chars)
    (hparts : f.parts = [f.reread])
    (h : standard.builder.ofChain standard.builder.parse (.ofTokens f.operandTokens) =
      .ok f.reread) : Rereads f where
  reads := by
    rw [hparts]
    refine reads_part (comma_not_mem_operandTokens f) (fun rest ts hrest hts => ?_) h
    rw [← hchars]
    exact lexes_operand hw hrest hts
  gather_parts := by rw [hparts, gather]
  operand := h

theorem Rereads.of_reads {op : Operation} {args : List Formula} (hop : op.style ≠ .call)
    (hne : (app op args).chars ≠ []) (hreads : Reads (app op args).chars (app op args).parts)
    (hgather : gather (app op args).parts = (app op args).reread) : Rereads (app op args) where
  reads := hreads
  gather_parts := hgather
  operand := by
    rw [operandTokens, if_neg hop]
    exact ofChain_group hne (hgather ▸ hreads.parse_eq)

theorem parts_app {f : Formula} {op : Operation} {xs : List Formula} (h : f.reread = .app op xs)
    (hop : op.name ≠ Symbol.comma.name) : f.parts = [f.reread] := by
  rw [Formula.parts, h]
  exact unpack_app hop xs

theorem reads_commas {args : List Formula} (hne : args ≠ [])
    (h : ∀ a ∈ args, Reads a.chars a.parts) :
    Reads (commas (args.map chars)) (args.flatMap Formula.parts) := by
  induction args with
  | nil => exact absurd rfl hne
  | cons a args ih =>
    cases args with
    | nil => simpa [commas] using h a (by simp)
    | cons a' args =>
      have hrest := ih (by simp) fun x hx => h x (by simp [hx])
      have happend := (h a (by simp)).append hrest
      simpa [commas, List.intercalate_cons_cons] using happend

theorem rereads_leaf {f : Formula} (h : Written f) (hleaf : f.IsLeaf) : Rereads f := by
  refine .of_operand h (operand_leaf hleaf) ?_ ?_
  · rw [Formula.parts, reread_leaf hleaf, unpack_leaf hleaf]
  · rw [operandTokens_leaf hleaf, ofTokens_held, Builder.ofChain, ofOperands_held h hleaf,
      reread_leaf hleaf]

theorem reread_alone {s : Symbol} (hs : s ≠ .comma) :
    (app s.operation [blank]).reread = .app s.operation [blank] := by
  unfold reread reform
  simp [style_symbol hs, rereadAll, reread]

theorem rereads_alone {s : Symbol} (hs : s ≠ .comma) : Rereads (app s.operation [blank]) := by
  have hchars := chars_alone hs
  have hparts := parts_app (reread_alone hs) (operation_name_ne hs)
  have hchain : standard.builder.ofChain standard.builder.parse (.ofTokens [.op s]) =
      .ok (.app s.operation [blank]) := by
    rw [Chain.ofTokens, Chain.ofTokens, Builder.ofChain, if_pos ⟨rfl, rfl⟩,
      Builder.node_symbol_blank]
  have hreads : Reads (app s.operation [blank]).chars (app s.operation [blank]).parts := by
    rw [hchars, hparts, reread_alone hs]
    refine reads_part (by simpa using hs.symm) (fun rest ts _ hts => ?_) hchain
    exact hts.token (t := .op s) trivial trivial
  exact .of_reads (by simp [style_symbol hs]) (by simp [hchars]) hreads (by rw [hparts, gather])

theorem reread_pair {s : Symbol} (hs : s ≠ .comma) {l r : Formula} (hleaf : l.IsLeaf)
    (h : ¬(l = blank ∧ r = blank)) :
    (app s.operation [l, r]).reread = .app s.operation [l, r.reread] := by
  rw [reread_app]
  unfold reform
  rw [style_symbol hs, List.map_cons, List.map_cons, List.map_nil, reread_leaf hleaf]
  split <;> simp_all

theorem reread_pair_blank {s : Symbol} (hs : s ≠ .comma) :
    (app s.operation [blank, blank]).reread = .app s.operation [blank] := by
  rw [reread_app]
  unfold reform
  rw [style_symbol hs]

theorem operandTokens_eq_nil_iff {f : Formula} : f.operandTokens = [] ↔ f = blank := by
  cases f with
  | app op args =>
    rw [operandTokens]
    split <;> simp
  | blank | const | ref => simp [operandTokens, held]

theorem ofTokens_operand_eq_nil_iff {f : Formula} :
    Chain.ofTokens f.operandTokens = .last [] ↔ f = blank := by
  rw [← operandTokens_eq_nil_iff]
  constructor
  · intro h
    have htokens := Chain.toTokens_ofTokens f.operandTokens
    rw [h] at htokens
    exact htokens.symm
  · intro h
    rw [h, Chain.ofTokens]

theorem held_eq_nil_iff {f : Formula} (h : f.IsLeaf) : f.held = [] ↔ f = blank := by
  rw [← operandTokens_eq_nil_iff, operandTokens_leaf h, List.map_eq_nil_iff]

theorem ofChain_pair {s : Symbol} (hs : s ≠ .comma) {l r : Formula} (hleaf : l.IsLeaf)
    (hl : Written l) (hr : Rereads r) :
    standard.builder.ofChain standard.builder.parse
      (.ofTokens (l.operandTokens ++ .op s :: r.operandTokens)) =
      .ok (app s.operation [l, r]).reread := by
  rw [operandTokens_leaf hleaf, ofTokens_held_append, Builder.ofChain]
  by_cases hblank : l = blank ∧ r = blank
  · obtain ⟨rfl, rfl⟩ := hblank
    rw [if_pos ⟨rfl, rfl⟩, reread_pair_blank hs, Builder.node_symbol_blank]
  · have hboth : ¬(l.held = [] ∧ Chain.ofTokens r.operandTokens = .last []) := fun h =>
      hblank ⟨(held_eq_nil_iff hleaf).mp h.1, ofTokens_operand_eq_nil_iff.mp h.2⟩
    rw [if_neg hboth, ofOperands_held hl hleaf, hr.operand, reread_pair hs hleaf hblank]
    exact Builder.node_symbol s (by simp)

theorem rereads_pair {s : Symbol} (hs : s ≠ .comma) {l r : Formula} (hleaf : l.IsLeaf)
    (hl : Written l) (hr : Written r) (ih : Rereads r) : Rereads (app s.operation [l, r]) := by
  have hchars := chars_pair hs l r
  have hparts : (app s.operation [l, r]).parts = [(app s.operation [l, r]).reread] := by
    by_cases hblank : l = blank ∧ r = blank
    · rw [hblank.1, hblank.2]
      exact parts_app (reread_pair_blank hs) (operation_name_ne hs)
    · exact parts_app (reread_pair hs hleaf hblank) (operation_name_ne hs)
  have hcomma : Token.op .comma ∉ l.operandTokens ++ .op s :: r.operandTokens := by
    simp [comma_not_mem_operandTokens, hs.symm]
  have hreads : Reads (app s.operation [l, r]).chars (app s.operation [l, r]).parts := by
    rw [hchars, hparts]
    refine reads_part hcomma (fun rest ts hrest hts => ?_) (ofChain_pair hs hleaf hl ih)
    have hspace : isBlank ' ' = true := by decide
    have hright := (lexes_operand hr hrest hts).blank hspace
    have hsymbol := (hright.token (t := .op s) trivial trivial).blank hspace
    have hleft := lexes_operand hl (by simp [Ends]) hsymbol
    simpa [Token.text] using hleft
  exact .of_reads (by simp [style_symbol hs]) (by simp [hchars]) hreads (by rw [hparts, gather])

theorem chars_eq_nil_iff {f : Formula} (h : Written f) : f.chars = [] ↔ f = blank := by
  cases h with
  | blank => simp
  | const h => simp [chars_const_of_nonneg h, Decimal.ofNat_ne_nil]
  | ref h =>
    rw [chars_ref]
    refine ⟨fun he => ?_, nofun⟩
    rw [he] at h
    exact absurd h id
  | alone hs => simp [chars_alone hs]
  | pair hs => simp [chars_pair hs]
  | call hop => simp [chars_call (style_average hop), parens]
  | @list args hlen =>
    rw [chars_list]
    match args, hlen with
    | a :: b :: rest, _ => simp [commas, List.intercalate_cons_cons]

theorem commas_ne_nil {args : List Formula} (hne : args ≠ []) (h : ∀ a ∈ args, Written a)
    (hblank : args ≠ [blank]) : commas (args.map chars) ≠ [] := by
  match args with
  | [] => exact absurd rfl hne
  | [a] =>
    have ha : a ≠ blank := fun e => hblank (by rw [e])
    simpa [commas] using mt (chars_eq_nil_iff (h a (by simp))).mp ha
  | _ :: _ :: _ => simp [commas, List.intercalate_cons_cons]

theorem length_flatMap_parts {args : List Formula} (h : ∀ a ∈ args, Rereads a) :
    args.length ≤ (args.flatMap Formula.parts).length :=
  length_le_length_flatMap fun a ha => (h a ha).reads.length_pos

/-- Arguments gathered into one formula are its argument list. -/
theorem unpack_gather {args : List Formula} (hne : args ≠ []) (h : ∀ a ∈ args, Rereads a) :
    unpack [gather (args.flatMap Formula.parts)] = args.flatMap Formula.parts := by
  match args with
  | [] => exact absurd rfl hne
  | [a] =>
    rw [List.flatMap_cons, List.flatMap_nil, List.append_nil, (h a (by simp)).gather_parts,
      Formula.parts]
  | a :: b :: rest =>
    have hlen := length_flatMap_parts h
    rw [gather_of_length (by simp at hlen ⊢; omega), unpack_comma]

theorem reread_call {op : Operation} (hop : op.style = .call) {args : List Formula}
    (h : args ≠ [blank]) : (app op args).reread = .app op (args.flatMap Formula.parts) := by
  rw [reread_app]
  unfold reform
  rw [hop]
  split
  next hs => cases hs
  next hs _ => cases hs
  next => exact absurd rfl h
  next =>
    rw [List.flatMap_map]
    rfl

theorem reread_call_blank {op : Operation} (hop : op.style = .call) :
    (app op [blank]).reread = blank := by
  rw [reread_app]
  unfold reform
  rw [hop]

theorem name_average_ne {op : Operation} (h : op = .mean ∨ op = .median) :
    op.name ≠ Symbol.comma.name ∧ op.name ≠ "" := by
  rcases h with rfl | rfl <;> decide

theorem node_average {op : Operation} (hop : op = .mean ∨ op = .median) {f : Formula}
    {args : List Formula} (hf : unpack [f] = args) (hne : args ≠ []) :
    standard.builder.node op.name [f] = .ok (.app op args) := by
  refine Builder.node_of_apply ?_
  show standard.combine op.name [f] = _
  simp only [combine, hf, if_neg (name_average_ne hop).2]
  exact build_average hop hne

theorem rereads_call {op : Operation} (hop : op = .mean ∨ op = .median) {args : List Formula}
    (hw : Written (app op args)) (hne : args ≠ []) (hargs : ∀ a ∈ args, Written a)
    (ih : ∀ a ∈ args, Rereads a) : Rereads (app op args) := by
  have hstyle := style_average hop
  have hchars : (app op args).operand (app op args).chars = (app op args).chars := by
    rw [operand_app, if_pos hstyle]
  -- the call of a blank is shown with nothing in its parentheses, and that is read as a blank
  by_cases hblank : args = [blank]
  · subst hblank
    have hreread := reread_call_blank hstyle
    refine .of_operand hw hchars (by rw [Formula.parts, hreread]; rfl) ?_
    rw [operandTokens, if_pos hstyle, hreread]
    exact Builder.node_group_blank
  · have hreread := reread_call hstyle hblank
    refine .of_operand hw hchars (parts_app hreread (name_average_ne hop).1) ?_
    have hinner := (reads_commas hne fun a ha => (ih a ha).reads).parse_eq
    have hcontents := ofList_ne_empty (commas_ne_nil hne hargs hblank)
    have hflat : args.flatMap Formula.parts ≠ [] := by
      have hlen := length_flatMap_parts ih
      have hpos := List.length_pos_iff.mpr hne
      exact List.length_pos_iff.mp (by omega)
    have hnode := node_average hop (unpack_gather hne ih) hflat
    change standard.builder.parse _ = _ at hinner
    rw [operandTokens, if_pos hstyle, hreread, Chain.ofTokens, Builder.ofChain,
      if_neg fun hc => hcontents hc.2.2, hinner]
    exact hnode

theorem reread_list (args : List Formula) :
    (app .comma args).reread = .app .comma (args.flatMap Formula.parts) := by
  rw [reread_app]
  show Formula.app .comma _ = _
  rw [List.flatMap_map]
  rfl

theorem rereads_list {args : List Formula} (hlen : 2 ≤ args.length)
    (hargs : ∀ a ∈ args, Written a) (ih : ∀ a ∈ args, Rereads a) : Rereads (app .comma args) := by
  have hne : args ≠ [] := by
    rintro rfl
    simp at hlen
  have hparts : (app .comma args).parts = args.flatMap Formula.parts := by
    rw [Formula.parts, reread_list, unpack_comma]
  have hchars : (app .comma args).chars ≠ [] :=
    mt (chars_eq_nil_iff (.list hlen hargs)).mp (by simp)
  refine .of_reads (by decide) hchars ?_ ?_
  · rw [chars_list, hparts]
    exact reads_commas hne fun a ha => (ih a ha).reads
  · rw [hparts, reread_list]
    exact gather_of_length (Nat.le_trans hlen (length_flatMap_parts ih))

theorem rereads_of_written {f : Formula} (h : Written f) : Rereads f := by
  induction h with
  | blank => exact rereads_leaf .blank trivial
  | const h => exact rereads_leaf (.const h) trivial
  | ref h => exact rereads_leaf (.ref h) trivial
  | alone hs => exact rereads_alone hs
  | pair hs hleaf hl hr _ ihr => exact rereads_pair hs hleaf hl hr ihr
  | call hop hne hargs hsole ih => exact rereads_call hop (.call hop hne hargs hsole) hne hargs ih
  | list hlen hargs ih => exact rereads_list hlen hargs ih

/-- The text of a formula that came out of a text is read as `reread` says. -/
theorem parse_render {f : Formula} (h : Written f) : standard.parse f.render = .ok f.reread :=
  (rereads_of_written h).parse_eq

end Formula

end FormulaGrid
