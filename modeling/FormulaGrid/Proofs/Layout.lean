import FormulaGrid.Proofs.Balance
import Mathlib.Data.List.Chain

/-!
# Proofs.Layout — the texts that have given tokens

A text has certain tokens exactly if it is made of their texts in this order and of blanks before,
between and after them (`lex_eq_ok_iff`).  No blank is needed between two tokens unless the first one
would go on into the second: a number into a number, a name into anything but an operator.
-/

namespace FormulaGrid

/-- A text of blanks. -/
def Blanks (cs : List Char) : Prop := ∀ c ∈ cs, isBlank c = true

namespace Token

/-- A number has digits, a name is a name, and a span has a name or none and a balanced inside. -/
def WellFormed : Token → Prop
  | operand (.num digits) => IsDigits digits.toList
  | operand (.ref name) => IsName name.toList
  | op _ => True
  | span name contents => (name = "" ∨ IsName name.toList) ∧ Balanced contents.toList

/-- Whether the second token may follow the first one with nothing between them. -/
def MayTouch : Token → Token → Prop
  | operand (.num _), operand (.num _) => False
  | operand (.ref _), op _ => True
  | operand (.ref _), _ => False
  | _, _ => True

/-- Tokens, each with the text after it up to the next one, written out. -/
def spread (items : List (Token × List Char)) : List Char :=
  items.flatMap fun item => item.1.text ++ item.2

/-- Well-formed tokens, each with the blanks after it.  Where there are none, the tokens may touch. -/
def Spaced (items : List (Token × List Char)) : Prop :=
  (∀ item ∈ items, item.1.WellFormed ∧ Blanks item.2) ∧
    items.IsChain fun item later => item.2 = [] → item.1.MayTouch later.1

theorem valid_iff_wellFormed {t : Token} : t.Valid ↔ t.WellFormed := by
  cases t with
  | operand o => cases o <;> rfl
  | op => rfl
  | span name contents => rw [Valid, WellFormed, level_iff_balanced]

/-! ### The first character after a token -/

theorem toNat_of_isNameChar {c : Char} (h : isNameChar c = true) :
    48 ≤ c.toNat ∧ c.toNat ≤ 122 := by
  have h' : c.isAlpha = true ∨ c.isDigit = true ∨ c = '_' := by
    simpa [isNameChar, Char.isAlphanum, or_assoc] using h
  rcases h' with h | h | rfl
  · have := toNat_of_isAlpha h
    omega
  · have := toNat_of_isDigit h
    omega
  · decide

theorem stops_of_isBlank {c : Char} (hc : isBlank c = true) (rest : List Char) (t : Token) :
    t.Stops (c :: rest) := by
  have hrange : ¬(0x21 ≤ c.toNat ∧ c.toNat < 0x7F) := by
    rintro ⟨h1, h2⟩
    rw [isBlank_eq_false h1 h2] at hc
    cases hc
  have hname : isNameChar c = false := by
    rw [Bool.eq_false_iff]
    intro h
    have := toNat_of_isNameChar h
    omega
  have hdigit : c.isDigit = false := by
    rw [Bool.eq_false_iff]
    intro h
    have := toNat_of_isDigit h
    omega
  have hopen : c ≠ '(' := by
    rintro rfl
    exact hrange (by decide)
  cases t with
  | operand o => cases o <;> simp [Stops, hname, hdigit, hopen]
  | op | span => exact trivial

theorem stops_nil (t : Token) : t.Stops [] := by
  cases t with
  | operand o => cases o <;> simp [Stops]
  | op | span => exact trivial

theorem exists_head_of_isDigits {cs : List Char} (h : IsDigits cs) (rest : List Char) :
    ∃ c, (cs ++ rest).head? = some c ∧ c.isDigit = true := by
  cases cs with
  | nil => exact absurd rfl h.1
  | cons c cs => exact ⟨c, rfl, h.2 c (by simp)⟩

theorem exists_head_of_isName {cs : List Char} (h : IsName cs) (rest : List Char) :
    ∃ c, (cs ++ rest).head? = some c ∧ c.isAlpha = true := by
  cases cs with
  | nil => exact absurd h id
  | cons c cs => exact ⟨c, rfl, h.1⟩

theorem exists_head_of_span {name : String} (h : name = "" ∨ IsName name.toList)
    (contents : String) (rest : List Char) :
    ∃ c, ((span name contents).text ++ rest).head? = some c ∧ (c = '(' ∨ c.isAlpha = true) := by
  rcases h with rfl | h
  · exact ⟨'(', rfl, .inl rfl⟩
  · obtain ⟨c, hc, halpha⟩ := exists_head_of_isName h ('(' :: (contents.toList ++ [')']) ++ rest)
    exact ⟨c, by simpa [text] using hc, .inr halpha⟩

theorem stops_iff_of_head {rest : List Char} {c : Char} (h : rest.head? = some c) (t : Token) :
    t.Stops rest ↔
      match t with
      | operand (.num _) => c.isDigit = false
      | operand (.ref _) => isNameChar c = false ∧ c ≠ '('
      | _ => True := by
  cases t with
  | operand o => cases o <;> simp [Stops, h]
  | op | span => rfl

/-- A well-formed token is no continuation of the token before it exactly if the two may touch. -/
theorem stops_text_iff {t u : Token} (hu : u.WellFormed) (rest : List Char) :
    t.Stops (u.text ++ rest) ↔ t.MayTouch u := by
  cases u with
  | operand o =>
    cases o with
    | num digits =>
      obtain ⟨c, hc, hdigit⟩ := exists_head_of_isDigits hu rest
      have hname : isNameChar c = true := by simp [isNameChar, Char.isAlphanum, hdigit]
      refine (stops_iff_of_head hc t).trans ?_
      cases t with
      | operand o => cases o <;> simp [MayTouch, hdigit, hname]
      | op | span => rfl
    | ref name =>
      obtain ⟨c, hc, halpha⟩ := exists_head_of_isName hu rest
      refine (stops_iff_of_head hc t).trans ?_
      cases t with
      | operand o =>
        cases o <;> simp [MayTouch, isDigit_of_isAlpha halpha, isNameChar_of_isAlpha halpha]
      | op | span => rfl
  | op s =>
    have hc : ((op s).text ++ rest).head? = some s.char := rfl
    rw [stops_iff_of_head hc]
    cases t with
    | operand o => cases o <;> cases s <;> simp [MayTouch, Symbol.char] <;> decide
    | op | span => rfl
  | span name contents =>
    obtain ⟨c, hc, hstart⟩ := exists_head_of_span hu.1 contents rest
    rw [stops_iff_of_head hc]
    cases t with
    | operand o =>
      rcases hstart with rfl | halpha
      · cases o <;> simp [MayTouch]
      · cases o <;> simp [MayTouch, isDigit_of_isAlpha halpha, isNameChar_of_isAlpha halpha]
    | op | span => rfl

theorem head_dropWhile {p : Char → Bool} {cs : List Char} :
    ∀ c ∈ (cs.dropWhile p).head?, p c = false := by
  intro c hc
  have h := List.head?_dropWhile_not p cs
  rw [Option.mem_def.mp hc] at h
  exact h

theorem stops_of_nextSpan {position : Nat} {name cs rest : List Char} {t : Token}
    (h : nextSpan position name cs = .ok (t, rest)) : t.Stops rest := by
  unfold nextSpan at h
  split at h
  next =>
    cases h
    exact trivial
  next => cases h

/-- What is left after a token is read is no continuation of the token. -/
theorem stops_of_next {position : Nat} {c : Char} {cs rest : List Char} {t : Token}
    (h : next position c cs = .ok (t, rest)) : t.Stops rest := by
  unfold next at h
  split at h
  next =>
    cases h
    exact head_dropWhile
  split at h
  next =>
    dsimp only at h
    split at h
    next => exact stops_of_nextSpan h
    next hopen =>
      cases h
      intro x hx
      refine ⟨head_dropWhile x hx, ?_⟩
      rintro rfl
      obtain ⟨more, hmore⟩ := List.head?_eq_some_iff.mp (Option.mem_def.mp hx)
      exact hopen more hmore
  split at h
  next => exact stops_of_nextSpan h
  split at h
  next => cases h
  split at h
  next =>
    cases h
    exact trivial
  next => cases h

/-! ### Texts of spaced tokens -/

theorem Lexes.blanks {w cs : List Char} {ts : List Token} (hw : Blanks w) (h : Lexes cs ts) :
    Lexes (w ++ cs) ts := by
  induction w with
  | nil => exact h
  | cons c w ih =>
    obtain ⟨hc, hw⟩ := List.forall_mem_cons.mp hw
    exact (ih hw).blank hc

theorem spaced_cons_iff {t : Token} {w : List Char} {items : List (Token × List Char)} :
    Spaced ((t, w) :: items) ↔
      t.WellFormed ∧ Blanks w ∧ (∀ later ∈ items.head?, w = [] → t.MayTouch later.1) ∧
        Spaced items := by
  simp only [Spaced, List.forall_mem_cons, List.isChain_cons]
  tauto

/-- A token is not continued by its blanks and the tokens after it exactly if it may touch the next
token or there are blanks between them. -/
theorem stops_spread_iff {t : Token} {w : List Char} {items : List (Token × List Char)}
    (hw : Blanks w) (hitems : ∀ item ∈ items, item.1.WellFormed) :
    t.Stops (w ++ spread items) ↔ ∀ later ∈ items.head?, w = [] → t.MayTouch later.1 := by
  cases w with
  | cons c w => simp [stops_of_isBlank (hw c (by simp))]
  | nil =>
    cases items with
    | nil => simp [spread, stops_nil]
    | cons item items =>
      have htext : spread (item :: items) = item.1.text ++ (item.2 ++ spread items) := by
        simp [spread]
      rw [List.nil_append, htext, stops_text_iff (hitems item (by simp))]
      simp

theorem lexes_of_spaced {items : List (Token × List Char)} (h : Spaced items) :
    Lexes (spread items) (items.map Prod.fst) := by
  induction items with
  | nil => exact .nil
  | cons item items ih =>
    obtain ⟨t, w⟩ := item
    obtain ⟨ht, hw, htouch, hitems⟩ := spaced_cons_iff.mp h
    have hstops := (stops_spread_iff hw fun i hi => (hitems.1 i hi).1).mpr htouch
    have hlex := Lexes.token (valid_iff_wellFormed.mpr ht) hstops ((ih hitems).blanks hw)
    simpa [spread] using hlex

/-- The tokens of a text, with the blanks that are found between them, make up the text. -/
theorem exists_spaced_of_lexFrom {position : Nat} {cs : List Char} {ts : List Token}
    (h : lexFrom position cs = .ok ts) :
    ∃ lead items, Blanks lead ∧ Spaced items ∧ cs = lead ++ spread items ∧
      ts = items.map Prod.fst := by
  fun_induction lexFrom position cs generalizing ts with
  | case1 =>
    cases h
    exact ⟨[], [], by simp [Blanks], by simp [Spaced], rfl, rfl⟩
  | case2 position c cs hc ih =>
    obtain ⟨lead, items, hlead, hitems, rfl, rfl⟩ := ih h
    exact ⟨c :: lead, items, List.forall_mem_cons.mpr ⟨hc, hlead⟩, hitems, rfl, rfl⟩
  | case3 position c cs _ t rest hnext ih =>
    obtain ⟨us, hus, rfl⟩ := Except.map_eq_ok_iff.mp h
    obtain ⟨lead, items, hlead, hitems, rfl, rfl⟩ := ih hus
    -- the blanks in front of the rest are those after the token
    have hstops := (stops_spread_iff hlead fun i hi => (hitems.1 i hi).1).mp (stops_of_next hnext)
    have ht := valid_iff_wellFormed.mp (valid_of_next hnext)
    refine ⟨[], (t, lead) :: items, by simp [Blanks],
      spaced_cons_iff.mpr ⟨ht, hlead, hstops, hitems⟩, ?_, rfl⟩
    rw [← text_append_of_next hnext]
    simp [spread]
  | case4 => cases h

/-- A text has given tokens exactly if it is these tokens with blanks before, between and after them,
such that tokens without blanks between them may touch. -/
theorem lex_eq_ok_iff {text : String} {ts : List Token} :
    lex text = .ok ts ↔
      ∃ lead items, Blanks lead ∧ Spaced items ∧ text.toList = lead ++ spread items ∧
        ts = items.map Prod.fst := by
  constructor
  · exact exists_spaced_of_lexFrom
  · rintro ⟨lead, items, hlead, hitems, htext, rfl⟩
    have hlex := ((lexes_of_spaced hitems).blanks hlead).lex_eq
    rwa [← htext, String.ofList_toList] at hlex

end Token

end FormulaGrid
