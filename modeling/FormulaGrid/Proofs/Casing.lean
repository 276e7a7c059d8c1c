import FormulaGrid.Proofs.Spacing

/-!
# Proofs.Casing — the case of function names

Texts are recased when they differ only in the ASCII case of letters of names that stand right before an
opening parenthesis (`Recased`).  The lexer finds the same tokens in both, up to the case of the names of
spans, and the insides of the spans are recased in turn (`Token.lex_recased`).  A catalog looks names up in
capitals, so both texts are read as the same formula, or fail in the same way (`Catalog.parse_recased`).
-/

namespace Except

variable {ε ε' α β : Type} {k : ε → ε'}

/-- Computations that agree up to a change of their errors still do when others that agree follow. -/
theorem mapError_bind_congr {x y : Except ε α} {f g : α → Except ε β}
    (h : x.mapError k = y.mapError k) (hfg : ∀ a, (f a).mapError k = (g a).mapError k) :
    (x >>= f).mapError k = (y >>= g).mapError k := by
  cases x with
  | error e =>
    obtain ⟨e', rfl, he⟩ := mapError_eq_error_iff.mp h.symm
    exact congrArg Except.error he.symm
  | ok a =>
    obtain rfl := mapError_eq_ok_iff.mp h.symm
    exact hfg a

theorem mapM_mapError_congr {f g : α → Except ε β} (as : List α)
    (h : ∀ a, (f a).mapError k = (g a).mapError k) : (as.mapM f).mapError k = (as.mapM g).mapError k := by
  induction as with
  | nil => rfl
  | cons a as ih =>
    rw [List.mapM_cons, List.mapM_cons]
    exact mapError_bind_congr (h a) fun r => mapError_bind_congr ih fun rest => rfl

end Except

namespace FormulaGrid

/-! ### The two cases of a letter -/

section Letters

variable {c c' : Char}

/-- The capital of a letter is a letter and its own capital. -/
theorem toUpper_of_isAlpha (h : c.isAlpha = true) :
    c.toUpper.isAlpha = true ∧ c.toUpper.toUpper = c.toUpper := by
  have hall : ∀ n < 123, 65 ≤ n → (Char.ofNat n).isAlpha = true →
      (Char.ofNat n).toUpper.isAlpha = true ∧
        (Char.ofNat n).toUpper.toUpper = (Char.ofNat n).toUpper := by decide
  have hrange := toNat_of_isAlpha h
  have hc := hall c.toNat (by omega) (by omega)
  rw [Char.ofNat_toNat] at hc
  exact hc h

theorem toUpper_of_not_isAlpha (h : c.isAlpha = false) : c.toUpper = c := by
  have hlower : (decide (c.val ≥ 'a'.val) && decide (c.val ≤ 'z'.val)) = false :=
    (Bool.or_eq_false_iff.mp h).2
  exact dif_neg (by simpa using hlower)

theorem isAlpha_toUpper (c : Char) : c.toUpper.isAlpha = c.isAlpha := by
  cases hc : c.isAlpha with
  | true => exact (toUpper_of_isAlpha hc).1
  | false => rw [toUpper_of_not_isAlpha hc, hc]

theorem toUpper_idem (c : Char) : c.toUpper.toUpper = c.toUpper := by
  cases hc : c.isAlpha with
  | true => exact (toUpper_of_isAlpha hc).2
  | false => rw [toUpper_of_not_isAlpha hc, toUpper_of_not_isAlpha hc]

/-- Only letters have two cases. -/
theorem eq_of_toUpper_eq (h : c.toUpper = c'.toUpper) (hc : c.isAlpha = false) : c = c' := by
  have hc' : c'.isAlpha = false := by rw [← isAlpha_toUpper, ← h, isAlpha_toUpper, hc]
  rwa [toUpper_of_not_isAlpha hc, toUpper_of_not_isAlpha hc'] at h

/-- What is the same for all letters is the same in both cases. -/
theorem congr_of_toUpper_eq {β : Type} {p : Char → β} {v : β} (hp : ∀ x, x.isAlpha = true → p x = v)
    (h : c.toUpper = c'.toUpper) : p c = p c' := by
  cases hc : c.isAlpha with
  | false => rw [eq_of_toUpper_eq h hc]
  | true =>
    have hc' : c'.isAlpha = true := by
      rw [← isAlpha_toUpper, ← h, isAlpha_toUpper, hc]
    rw [hp c hc, hp c' hc']

theorem isAlpha_eq_false {p : Char → Bool} (hp : ∀ {x}, x.isAlpha = true → p x = false)
    (h : p c = true) : c.isAlpha = false := by
  rw [Bool.eq_false_iff]
  intro hc
  rw [hp hc] at h
  cases h

theorem isNameChar_congr (h : c.toUpper = c'.toUpper) : isNameChar c = isNameChar c' :=
  congr_of_toUpper_eq (fun _ hx => isNameChar_of_isAlpha hx) h

theorem isDigit_congr (h : c.toUpper = c'.toUpper) : c.isDigit = c'.isDigit :=
  congr_of_toUpper_eq (fun _ hx => isDigit_of_isAlpha hx) h

theorem isAlpha_congr (h : c.toUpper = c'.toUpper) : c.isAlpha = c'.isAlpha :=
  congr_of_toUpper_eq (fun _ hx => hx) h

theorem utf8Size_congr (h : c.toUpper = c'.toUpper) : c.utf8Size = c'.utf8Size := by
  refine congr_of_toUpper_eq (v := 1) (fun x hx => Char.utf8Size_eq_one_iff.mpr ?_) h
  have := toNat_of_isAlpha hx
  exact UInt32.le_iff_toNat_le.mpr (show x.toNat ≤ 127 by omega)

theorem isBlank_of_isAlpha (h : c.isAlpha = true) : isBlank c = false := by
  have hrange := toNat_of_isAlpha h
  exact isBlank_eq_false (by omega) (by omega)

theorem isBlank_congr (h : c.toUpper = c'.toUpper) : isBlank c = isBlank c' :=
  congr_of_toUpper_eq (fun _ hx => isBlank_of_isAlpha hx) h

theorem eq_iff_of_toUpper_eq (h : c.toUpper = c'.toUpper) {x : Char} (hx : x.isAlpha = false) :
    c = x ↔ c' = x := by
  constructor
  · rintro rfl
    exact (eq_of_toUpper_eq h hx).symm
  · rintro rfl
    exact (eq_of_toUpper_eq h.symm hx).symm

theorem noParen_congr (h : c.toUpper = c'.toUpper) : NoParen c ↔ NoParen c' :=
  and_congr (eq_iff_of_toUpper_eq h (by decide)).not (eq_iff_of_toUpper_eq h (by decide)).not

theorem upperChar_toUpper (c : Char) : upperChar c.toUpper = upperChar c := by
  cases hc : c.isAlpha with
  | true =>
    obtain ⟨hc', hsame⟩ := toUpper_of_isAlpha hc
    have hrange := toNat_of_isAlpha hc
    have hrange' := toNat_of_isAlpha hc'
    rw [upperChar_ascii (by omega), upperChar_ascii (by omega), hsame]
  | false => rw [toUpper_of_not_isAlpha hc]

end Letters

theorem byteCount_congr {cs cs' : List Char} (h : cs.map Char.toUpper = cs'.map Char.toUpper) :
    byteCount cs = byteCount cs' := by
  induction cs generalizing cs' with
  | nil => rw [List.map_eq_nil_iff.mp h.symm]
  | cons c cs ih =>
    obtain ⟨c', cs', rfl, hc, hcs⟩ := List.map_eq_cons_iff.mp h.symm
    rw [byteCount_cons, byteCount_cons, utf8Size_congr hc, ih hcs.symm]

theorem upper_toUpper (name : String) : upper name.toUpper = upper name := by
  apply String.toList_inj.mp
  simp [String.toUpper, List.flatMap_map, upperChar_toUpper]

/-! ### Recased texts -/

/-- A text that starts with the end of a name, possibly an empty one, and an opening parenthesis after it. -/
def LeadsToCall (cs : List Char) : Prop := (cs.dropWhile isNameChar).head? = some '('

instance (cs : List Char) : Decidable (LeadsToCall cs) :=
  inferInstanceAs (Decidable (_ = some '('))

/-- Texts that differ only in the ASCII case of letters of names right before an opening parenthesis. -/
inductive Recased : List Char → List Char → Prop
  | nil : Recased [] []
  | cons {c c' : Char} {cs cs' : List Char} (hc : c.toUpper = c'.toUpper)
      (hcall : c ≠ c' → LeadsToCall cs) (h : Recased cs cs') : Recased (c :: cs) (c' :: cs')

theorem recased_cons_iff {c c' : Char} {cs cs' : List Char} :
    Recased (c :: cs) (c' :: cs') ↔
      c.toUpper = c'.toUpper ∧ (c ≠ c' → LeadsToCall cs) ∧ Recased cs cs' := by
  refine ⟨fun h => ?_, fun ⟨hc, hcall, h⟩ => .cons hc hcall h⟩
  obtain - | ⟨hc, hcall, h⟩ := h
  exact ⟨hc, hcall, h⟩

instance : ∀ cs cs', Decidable (Recased cs cs')
  | [], [] => isTrue .nil
  | [], _ :: _ => isFalse fun h => nomatch h
  | _ :: _, [] => isFalse fun h => nomatch h
  | _ :: cs, _ :: cs' =>
    have : Decidable (Recased cs cs') := instDecidableRecased cs cs'
    decidable_of_iff' _ recased_cons_iff

theorem leadsToCall_cons_iff {c : Char} {cs : List Char} (hc : isNameChar c = true) :
    LeadsToCall (c :: cs) ↔ LeadsToCall cs := by
  rw [LeadsToCall, List.dropWhile_cons_of_pos hc]
  rfl

/-- A name that leads to a call before a parenthesis is closed leads to one on this side of it. -/
theorem LeadsToCall.of_append_close {cs rest : List Char} (h : LeadsToCall (cs ++ ')' :: rest)) :
    LeadsToCall cs := by
  induction cs with
  | nil => exact absurd h (by simp [LeadsToCall, isNameChar])
  | cons c cs ih =>
    by_cases hc : isNameChar c = true
    · rw [List.cons_append, leadsToCall_cons_iff hc] at h
      exact (leadsToCall_cons_iff hc).mpr (ih h)
    · simpa [LeadsToCall, List.dropWhile_cons_of_neg hc] using h

namespace Recased

variable {cs cs' : List Char}

theorem map_toUpper (h : Recased cs cs') : cs.map Char.toUpper = cs'.map Char.toUpper := by
  induction h with
  | nil => rfl
  | cons hc _ _ ih => rw [List.map_cons, List.map_cons, hc, ih]

theorem dropWhile (h : Recased cs cs') {p : Char → Bool}
    (hp : ∀ c c', c.toUpper = c'.toUpper → p c = p c') :
    Recased (cs.dropWhile p) (cs'.dropWhile p) := by
  induction h with
  | nil => exact .nil
  | @cons c c' _ _ hc hcall h ih =>
    rw [List.dropWhile_cons, List.dropWhile_cons, hp c c' hc]
    split
    next => exact ih
    next => exact .cons hc hcall h

theorem map_takeWhile (h : Recased cs cs') {p : Char → Bool}
    (hp : ∀ c c', c.toUpper = c'.toUpper → p c = p c') :
    (cs.takeWhile p).map Char.toUpper = (cs'.takeWhile p).map Char.toUpper := by
  induction h with
  | nil => rfl
  | @cons c c' _ _ hc _ _ ih =>
    rw [List.takeWhile_cons, List.takeWhile_cons, hp c c' hc]
    split
    next => rw [List.map_cons, List.map_cons, hc, ih]
    next => rfl

theorem takeWhile_isDigit (h : Recased cs cs') :
    cs.takeWhile Char.isDigit = cs'.takeWhile Char.isDigit := by
  induction h with
  | nil => rfl
  | @cons c c' _ _ hc _ _ ih =>
    rw [List.takeWhile_cons, List.takeWhile_cons, isDigit_congr hc]
    split
    next hd =>
      rw [eq_of_toUpper_eq hc (isAlpha_eq_false isDigit_of_isAlpha (isDigit_congr hc ▸ hd)), ih]
    next => rfl

/-- The names of cells and builtins keep their case. -/
theorem takeWhile_isNameChar (h : Recased cs cs') (hcall : ¬LeadsToCall cs) :
    cs.takeWhile isNameChar = cs'.takeWhile isNameChar := by
  induction h with
  | nil => rfl
  | @cons c c' cs _ hc hcall' _ ih =>
    rw [List.takeWhile_cons, List.takeWhile_cons, isNameChar_congr hc]
    split
    next hn =>
      rw [leadsToCall_cons_iff (isNameChar_congr hc ▸ hn)] at hcall
      rw [not_imp_comm.mp hcall' hcall, ih hcall]
    next => rfl

theorem head?_eq_iff (h : Recased cs cs') {x : Char} (hx : x.isAlpha = false) :
    cs.head? = some x ↔ cs'.head? = some x := by
  cases h with
  | nil => rfl
  | cons hc => simp [eq_iff_of_toUpper_eq hc hx]

theorem leadsToCall_iff (h : Recased cs cs') : LeadsToCall cs ↔ LeadsToCall cs' :=
  (h.dropWhile fun _ _ => isNameChar_congr).head?_eq_iff (by decide)

end Recased

namespace Token

/-! ### The tokens of recased texts -/

/-- A token with the name of a span in capitals. -/
def raise : Token → Token
  | span name contents => span name.toUpper contents
  | t => t

/-- Tokens that are alike up to the case of the names of spans, with insides that are recased. -/
def LikeRaised (t t' : Token) : Prop :=
  Like (fun contents contents' => Recased contents.toList contents'.toList) t.raise t'.raise

theorem exists_span_of_mem_raise {name contents : String} {ts : List Token}
    (h : span name contents ∈ ts.map raise) : ∃ name', span name' contents ∈ ts := by
  obtain ⟨t, ht, hraise⟩ := List.mem_map.mp h
  cases t with
  | operand | op => cases hraise
  | span name' contents' =>
    cases hraise
    exact ⟨name', ht⟩

theorem likeRaised_span {name name' inside inside' : List Char}
    (hname : name.map Char.toUpper = name'.map Char.toUpper) (h : Recased inside inside') :
    LikeRaised (span (String.ofList name) (String.ofList inside))
      (span (String.ofList name') (String.ofList inside')) := by
  have hupper : (String.ofList name).toUpper = (String.ofList name').toUpper := by
    apply String.toList_inj.mp
    simpa [String.toUpper] using hname
  simp only [LikeRaised, raise, hupper]
  cases h with
  | nil => exact .empty _
  | cons hc hcall h =>
    refine .span _ (by simp) (by simp) ?_
    simpa only [String.toList_ofList] using .cons hc hcall h

variable {c c' : Char} {cs cs' : List Char}

/-- Two texts that are cut in two, with recased pieces. -/
def RecasedHalves (p p' : List Char × List Char) : Prop := Recased p.1 p'.1 ∧ Recased p.2 p'.2

theorem recasedHalves_cons {depth : Nat} (hc : c.toUpper = c'.toUpper) (hcall : c ≠ c' → LeadsToCall cs)
    (h : Option.Rel RecasedHalves (splitSpan depth cs) (splitSpan depth cs')) :
    Option.Rel RecasedHalves
      ((splitSpan depth cs).map fun (inside, rest) => (c :: inside, rest))
      ((splitSpan depth cs').map fun (inside, rest) => (c' :: inside, rest)) := by
  rcases hs : splitSpan depth cs with - | ⟨inside, rest⟩ <;>
    rcases hs' : splitSpan depth cs' with - | ⟨inside', rest'⟩ <;> rw [hs, hs'] at h
  case none.none => exact .none
  case none.some => cases h
  case some.none => cases h
  case some.some =>
    obtain ⟨hinside, hrest⟩ := Option.rel_some_some.mp h
    -- the parenthesis of the call stands inside of the span, as the name before it closes none
    have hcall' (hne : c ≠ c') : LeadsToCall inside :=
      LeadsToCall.of_append_close (append_of_splitSpan hs ▸ hcall hne)
    exact .some ⟨.cons hc hcall' hinside, hrest⟩

/-- The parenthesis that closes a span stands at the same place in both texts. -/
theorem splitSpan_recased (depth : Nat) (h : Recased cs cs') :
    Option.Rel RecasedHalves (splitSpan depth cs) (splitSpan depth cs') := by
  fun_induction splitSpan depth cs generalizing cs' with
  | case1 =>
    cases h
    exact .none
  | case2 cs =>
    cases h with
    | cons hc _ h =>
      obtain rfl := eq_of_toUpper_eq hc (by decide)
      exact .some ⟨.nil, h⟩
  | case3 cs depth ih =>
    cases h with
    | cons hc hcall h =>
      obtain rfl := eq_of_toUpper_eq hc (by decide)
      exact recasedHalves_cons hc hcall (ih h)
  | case4 depth cs ih =>
    cases h with
    | cons hc hcall h =>
      obtain rfl := eq_of_toUpper_eq hc (by decide)
      exact recasedHalves_cons hc hcall (ih h)
  | case5 depth c cs hclose hopen ih =>
    cases h with
    | cons hc hcall h =>
      rw [splitSpan_cons_of_noParen ((noParen_congr hc).mp ⟨hopen, hclose⟩)]
      exact recasedHalves_cons hc hcall (ih h)

/-- What the lexer makes of two texts: the same error, or related results. -/
inductive Both {α : Type} (R : α → α → Prop) : Except LexError α → Except LexError α → Prop
  | error (e : LexError) : Both R (.error e) (.error e)
  | ok {a a' : α} (h : R a a') : Both R (.ok a) (.ok a')

theorem Both.eq_error {α : Type} {R : α → α → Prop} {e : LexError} {y : Except LexError α}
    (h : Both R (.error e) y) : y = .error e := by
  cases h
  rfl

theorem Both.exists_ok {α : Type} {R : α → α → Prop} {a : α} {y : Except LexError α}
    (h : Both R (.ok a) y) : ∃ a', y = .ok a' ∧ R a a' := by
  cases h with
  | ok h => exact ⟨_, rfl, h⟩

theorem Both.map {α β : Type} {R : α → α → Prop} {S : β → β → Prop} {f g : α → β}
    {x y : Except LexError α} (h : Both R x y) (hfg : ∀ a a', R a a' → S (f a) (g a')) :
    Both S (x.map f) (y.map g) := by
  cases h with
  | error e => exact .error e
  | ok h => exact .ok (hfg _ _ h)

/-- A token that each of two texts starts with, and recased texts after them. -/
def RecasedStart (r r' : Token × List Char) : Prop := LikeRaised r.1 r'.1 ∧ Recased r.2 r'.2

theorem nextSpan_recased {name name' : List Char}
    (hname : name.map Char.toUpper = name'.map Char.toUpper) (h : Recased cs cs') (position : Nat) :
    Both RecasedStart (nextSpan position name cs) (nextSpan position name' cs') := by
  have hsplit := splitSpan_recased 0 h
  unfold nextSpan
  rcases hs : splitSpan 0 cs with - | ⟨inside, rest⟩ <;>
    rcases hs' : splitSpan 0 cs' with - | ⟨inside', rest'⟩ <;> rw [hs, hs'] at hsplit
  case none.none => exact .error _
  case none.some => cases hsplit
  case some.none => cases hsplit
  case some.some =>
    obtain ⟨hinside, hrest⟩ := Option.rel_some_some.mp hsplit
    exact .ok ⟨likeRaised_span hname hinside, hrest⟩

theorem next_of_call (hc : c.isAlpha = true) {rest : List Char}
    (hrest : cs.dropWhile isNameChar = '(' :: rest) (position : Nat) :
    next position c cs =
      nextSpan (position + byteCount (c :: cs.takeWhile isNameChar)) (c :: cs.takeWhile isNameChar)
        rest := by
  simp only [next, isDigit_of_isAlpha hc, hc, Bool.false_eq_true, if_false, if_true, hrest]

theorem next_of_not_leadsToCall (hc : c.isAlpha = true) (h : ¬LeadsToCall cs) (position : Nat) :
    next position c cs =
      .ok (operand (.ref (String.ofList (c :: cs.takeWhile isNameChar))), cs.dropWhile isNameChar) := by
  simp only [next, isDigit_of_isAlpha hc, hc, Bool.false_eq_true, if_false, if_true]
  split
  next rest hrest => exact absurd (by rw [LeadsToCall, hrest]; rfl) h
  next => rfl

theorem next_recased (h : Recased (c :: cs) (c' :: cs')) (position : Nat) :
    Both RecasedStart (next position c cs) (next position c' cs') := by
  obtain - | ⟨hc, hcall, h⟩ := h
  by_cases hd : c.isDigit = true
  · obtain rfl := eq_of_toUpper_eq hc (isAlpha_eq_false isDigit_of_isAlpha hd)
    simp only [next, hd, if_true, h.takeWhile_isDigit]
    exact .ok ⟨.operand _, h.dropWhile fun _ _ => isDigit_congr⟩
  have hdrop := h.dropWhile fun _ _ => isNameChar_congr
  by_cases ha : c.isAlpha = true
  -- a name keeps its case unless a parenthesis is right behind it, and this is so in both texts or in neither
  · have ha' : c'.isAlpha = true := isAlpha_congr hc ▸ ha
    by_cases hleads : LeadsToCall cs
    · obtain ⟨rest, hrest⟩ := List.head?_eq_some_iff.mp hleads
      obtain ⟨rest', hrest'⟩ := List.head?_eq_some_iff.mp (h.leadsToCall_iff.mp hleads)
      rw [hrest, hrest'] at hdrop
      obtain - | ⟨-, -, hinside⟩ := hdrop
      have hname : (c :: cs.takeWhile isNameChar).map Char.toUpper =
          (c' :: cs'.takeWhile isNameChar).map Char.toUpper := by
        rw [List.map_cons, List.map_cons, hc, h.map_takeWhile fun _ _ => isNameChar_congr]
      rw [next_of_call ha hrest, next_of_call ha' hrest', byteCount_congr hname]
      exact nextSpan_recased hname hinside _
    · obtain rfl : c = c' := not_imp_comm.mp hcall hleads
      rw [next_of_not_leadsToCall ha hleads,
        next_of_not_leadsToCall ha (mt h.leadsToCall_iff.mpr hleads), h.takeWhile_isNameChar hleads]
      exact .ok ⟨.operand _, hdrop⟩
  obtain rfl := eq_of_toUpper_eq hc (Bool.eq_false_iff.mpr ha)
  by_cases hopen : c = '('
  · subst hopen
    exact nextSpan_recased rfl h position
  simp only [next, hd, ha, hopen, Bool.false_eq_true, if_false]
  split
  next => exact .error _
  split
  next => exact .ok ⟨.op _, h⟩
  next => exact .error _

theorem byteCount_text_eq {t t' : Token} {rest rest' : List Char}
    (h : Recased (c :: cs) (c' :: cs')) (ht : t.text ++ rest = c :: cs)
    (ht' : t'.text ++ rest' = c' :: cs') (hrest : Recased rest rest') :
    byteCount t.text = byteCount t'.text := by
  have hall := byteCount_congr h.map_toUpper
  rw [← ht, ← ht', byteCount_append, byteCount_append, byteCount_congr hrest.map_toUpper] at hall
  exact Nat.add_right_cancel hall

theorem lexFrom_of_next {position : Nat} {t : Token} {rest : List Char} (hblank : ¬isBlank c = true)
    (hnext : next position c cs = .ok (t, rest)) :
    lexFrom position (c :: cs) = (lexFrom (position + byteCount t.text) rest).map (t :: ·) := by
  rw [lexFrom, if_neg hblank]
  split
  next heq =>
    cases hnext.symm.trans heq
    rfl
  next heq => cases hnext.symm.trans heq

theorem lexFrom_of_next_error {position : Nat} {e : LexError} (hblank : ¬isBlank c = true)
    (hnext : next position c cs = .error e) : lexFrom position (c :: cs) = .error e := by
  rw [lexFrom, if_neg hblank]
  split
  next heq => cases hnext.symm.trans heq
  next heq =>
    cases hnext.symm.trans heq
    rfl

theorem lexFrom_recased (h : Recased cs cs') (position : Nat) :
    Both (List.Forall₂ LikeRaised) (lexFrom position cs) (lexFrom position cs') := by
  fun_induction lexFrom position cs generalizing cs' with
  | case1 position =>
    cases h
    rw [lexFrom]
    exact .ok .nil
  | case2 position c cs hblank ih =>
    obtain - | ⟨hc, -, h⟩ := h
    obtain rfl := eq_of_toUpper_eq hc (isAlpha_eq_false isBlank_of_isAlpha hblank)
    rw [lexFrom_blank hblank]
    exact ih h
  | case3 position c cs hblank t rest hnext ih =>
    obtain - | ⟨hc, -, -⟩ := id h
    obtain ⟨⟨t', rest'⟩, hnext', ht, hrest⟩ := (hnext ▸ next_recased h position).exists_ok
    rw [lexFrom_of_next (isBlank_congr hc ▸ hblank) hnext',
      ← byteCount_text_eq h (text_append_of_next hnext) (text_append_of_next hnext') hrest]
    exact (ih hrest).map fun ts ts' htokens => List.Forall₂.cons ht htokens
  | case4 position c cs hblank e hnext =>
    obtain - | ⟨hc, -, -⟩ := id h
    have hnext' := (hnext ▸ next_recased h position).eq_error
    rw [lexFrom_of_next_error (isBlank_congr hc ▸ hblank) hnext']
    exact .error e

/-- The lexer fails with the same error for recased texts, or finds tokens that are alike one by one. -/
theorem lex_recased {text text' : String} (h : Recased text.toList text'.toList) :
    Both (List.Forall₂ LikeRaised) (lex text) (lex text') :=
  lexFrom_recased h 0

end Token

/-! ### The grammar on names in capitals -/

/-- A parse error with the name of an unknown function in capitals. -/
def ParseError.caseless : ParseError → ParseError
  | .rejected (.unknown name) => .rejected (.unknown name.toUpper)
  | e => e

theorem toUpper_toUpper (name : String) : name.toUpper.toUpper = name.toUpper := by
  apply String.toList_inj.mp
  simp only [String.toUpper, String.toList_map, List.map_map]
  exact List.map_congr_left fun c _ => toUpper_idem c

theorem ParseError.caseless_caseless (e : ParseError) : e.caseless.caseless = e.caseless := by
  cases e with
  | rejected e =>
    cases e with
    | unknown name => exact congrArg (fun n => rejected (.unknown n)) (toUpper_toUpper name)
    | argumentCount => rfl
  | lexical | constant | noOperator => rfl

namespace Token

theorem parts_raise (ts : List Token) :
    parts (ts.map raise) = ((parts ts).1.map raise, (parts ts).2.map (List.map raise)) := by
  induction ts with
  | nil => rfl
  | cons t ts ih =>
    by_cases ht : t = op .comma
    · subst ht
      simp [raise, ih]
    · have ht' : t.raise ≠ op .comma := by cases t <;> simp_all [raise]
      rw [List.map_cons, parts_cons ht, parts_cons ht', ih]
      rfl

end Token

namespace Chain

/-- A chain with the name of its span in capitals. -/
def raise : Chain → Chain
  | last held => last held
  | op held symbol rest => op held symbol rest.raise
  | span held name contents rest => span held name.toUpper contents (rest.map Token.raise)

theorem raise_hold (o : Operand) (k : Chain) : (k.hold o).raise = k.raise.hold o := by
  cases k <;> rfl

theorem raise_ofTokens (ts : List Token) : (ofTokens ts).raise = ofTokens (ts.map Token.raise) := by
  induction ts with
  | nil => rfl
  | cons t ts ih =>
    cases t with
    | operand o => rw [ofTokens, raise_hold, ih]; rfl
    | op symbol => rw [ofTokens, raise, ih]; rfl
    | span name contents => rfl

theorem raise_eq_last_iff (k : Chain) : k.raise = last [] ↔ k = last [] := by
  cases k <;> simp [raise]

end Chain

namespace Builder

variable {α : Type} {b : Builder α} {inner : String → Except ParseError α}

/-- A builder to which the ASCII case of names makes no difference, up to the name in an error. -/
def Caseless (b : Builder α) : Prop :=
  ∀ name args, (b.node name.toUpper args).mapError ParseError.caseless =
    (b.node name args).mapError ParseError.caseless

theorem mapError_caseless_twice (x : Except ParseError α) :
    (x.mapError ParseError.caseless).mapError ParseError.caseless = x.mapError ParseError.caseless := by
  cases x with
  | error e => exact congrArg Except.error e.caseless_caseless
  | ok a => rfl

/-- To raise names first, and errors on the way, makes no difference up to the name in an error. -/
theorem ofChain_raise (hb : b.Caseless) (k : Chain) :
    (b.ofChain (fun c => (inner c).mapError ParseError.caseless) k.raise).mapError ParseError.caseless =
      (b.ofChain inner k).mapError ParseError.caseless := by
  induction k with
  | last held => rfl
  | op held symbol rest ih =>
    simp only [Chain.raise, ofChain, Chain.raise_eq_last_iff]
    split
    next => rfl
    next =>
      exact Except.mapError_bind_congr rfl fun left => Except.mapError_bind_congr ih fun right => rfl
  | span held name contents rest =>
    simp only [Chain.raise, ofChain, List.map_eq_nil_iff]
    split
    next => rfl
    next =>
      exact Except.mapError_bind_congr (mapError_caseless_twice _) fun arg => hb name [arg]

theorem ofTokens_raise (hb : b.Caseless) (ts : List Token) :
    (b.ofTokens (fun c => (inner c).mapError ParseError.caseless) (ts.map Token.raise)).mapError
      ParseError.caseless = (b.ofTokens inner ts).mapError ParseError.caseless := by
  have hpart (p : List Token) :
      (b.ofChain (fun c => (inner c).mapError ParseError.caseless)
        (.ofTokens (p.map Token.raise))).mapError ParseError.caseless =
      (b.ofChain inner (.ofTokens p)).mapError ParseError.caseless := by
    rw [← Chain.raise_ofTokens, ofChain_raise hb]
  unfold ofTokens
  rw [Token.parts_raise]
  rcases Token.parts ts with ⟨p, - | ⟨q, ps⟩⟩
  · exact hpart p
  · refine Except.mapError_bind_congr ?_ fun args => rfl
    rw [← List.map_cons, List.mapM_map]
    exact Except.mapM_mapError_congr (p :: q :: ps) hpart

/-- Recased texts are read as the same node or fail with errors that differ at most in the case of a name. -/
theorem parse_caseless (hb : b.Caseless) {text text' : String} (h : Recased text.toList text'.toList) :
    (b.parse text).mapError ParseError.caseless = (b.parse text').mapError ParseError.caseless := by
  induction text using Token.wellFounded_inside.induction generalizing text' with
  | _ text ih =>
    rw [parse_eq, parse_eq]
    have hlex := Token.lex_recased h
    cases hts : Token.lex text with
    | error e =>
      rw [hts] at hlex
      rw [hlex.eq_error]
    | ok ts =>
      rw [hts] at hlex
      obtain ⟨ts', hts', hall⟩ := hlex.exists_ok
      rw [hts']
      have hraised : List.Forall₂ _ (ts.map Token.raise) (ts'.map Token.raise) :=
        List.forall₂_map_left_iff.mpr (List.forall₂_map_right_iff.mpr hall)
      refine (ofTokens_raise hb ts).symm.trans (.trans ?_ (ofTokens_raise hb ts'))
      refine congrArg _ (b.ofTokens_like (Token.forall₂_like_imp hraised fun name c hm c' hc => ?_))
      obtain ⟨name', hm⟩ := Token.exists_span_of_mem_raise hm
      exact ih c ⟨name', ts, hts, hm⟩ hc

end Builder

namespace Catalog

theorem find?_toUpper (c : Catalog) (name : String) : c.find? name.toUpper = c.find? name := by
  simp only [find?, upper_toUpper]

theorem caseless_builder (c : Catalog) : c.builder.Caseless := by
  intro name args
  have hempty : name.toUpper = "" ↔ name = "" := by simp [String.toUpper]
  have hbuild (args : List Formula) :
      ((c.build name.toUpper args).mapError ParseError.rejected).mapError ParseError.caseless =
        ((c.build name args).mapError ParseError.rejected).mapError ParseError.caseless := by
    unfold build
    rw [find?_toUpper]
    cases c.find? name with
    | some op => rfl
    | none => simp only [Except.mapError_error, ParseError.caseless, toUpper_toUpper]
  simp only [Builder.node, builder, combine, hempty]
  split
  next => rfl
  next => exact hbuild _

/-- The case of function names makes no difference.  Texts that differ only in the ASCII case of names right
before an opening parenthesis, at any depth, are read as the same formula over every catalog.  If one of them
is not read, both fail with the same error, up to the case of the name that it says is unknown. -/
theorem parse_recased (c : Catalog) {text text' : String} (h : Recased text.toList text'.toList) :
    (∀ f, c.parse text = .ok f ↔ c.parse text' = .ok f) ∧
    (∀ e, c.parse text = .error e → ∃ e', c.parse text' = .error e' ∧ e'.caseless = e.caseless) ∧
    ∀ e', c.parse text' = .error e' → ∃ e, c.parse text = .error e ∧ e.caseless = e'.caseless := by
  have hparse := Builder.parse_caseless c.caseless_builder h
  refine ⟨fun f => ?_, fun e he => ?_, fun e' he' => ?_⟩
  · rw [parse, parse, ← Except.mapError_eq_ok_iff, hparse, Except.mapError_eq_ok_iff]
  · rw [parse] at he
    rw [he] at hparse
    exact Except.mapError_eq_error_iff.mp hparse.symm
  · rw [parse] at he'
    rw [he'] at hparse
    exact Except.mapError_eq_error_iff.mp hparse

theorem mixed_case_same :
    (Recased "Mean(a0, (mEDIAN(2))) + f(x)".toList "MEAN(a0, (Median(2))) + F(x)".toList ∧
      standard.parse "Mean(a0, (mEDIAN(2))) + f(x)" =
        .ok (.app .mean [.ref "a0", .app .median [.const 2]]) ∧
      standard.parse "MEAN(a0, (Median(2))) + F(x)" =
        .ok (.app .mean [.ref "a0", .app .median [.const 2]])) ∧
    ∃ e, standard.parse "1, Mean(sUM(2))" = .error e ∧ e.caseless = .rejected (.unknown "SUM") := by
  have hcases : Recased "Mean(a0, (mEDIAN(2))) + f(x)".toList "MEAN(a0, (Median(2))) + F(x)".toList := by
    decide +kernel
  have hparse : standard.parse "Mean(a0, (mEDIAN(2))) + f(x)" =
      .ok (.app .mean [.ref "a0", .app .median [.const 2]]) := by with_unfolding_all rfl
  have hunknown : Recased "1, MEAN(Sum(2))".toList "1, Mean(sUM(2))".toList := by decide +kernel
  have hfail : standard.parse "1, MEAN(Sum(2))" = .error (.rejected (.unknown "Sum")) := by with_unfolding_all rfl
  obtain ⟨e, he, hcaseless⟩ := (parse_recased standard hunknown).2.1 _ hfail
  have hname : ParseError.caseless (.rejected (.unknown "Sum")) = .rejected (.unknown "SUM") := by
    decide +kernel
  have hparse' := ((parse_recased standard hcases).1 _).mp hparse
  exact ⟨⟨hcases, hparse, hparse'⟩, e, he, hcaseless.trans hname⟩

end Catalog

end FormulaGrid
