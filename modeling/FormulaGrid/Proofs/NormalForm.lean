import FormulaGrid.Proofs.CycleGuard

/-!
# Proofs.NormalForm — where reduction ends

A normal formula is blank, a constant or a name that is not bound.  These are the formulas that reduction
leaves as they are (`reduce_eq_self_iff`), and what any formula comes to is one of them
(`normal_of_reduce`), so to reduce a second time changes nothing.
-/

namespace FormulaGrid.Formula

variable {b : Bindings}

/-- Nothing is left to reduce: the formula is blank, a constant or a name that is not bound. -/
def Normal (b : Bindings) : Formula → Prop
  | blank => True
  | const _ => True
  | ref name => b.find? name = none
  | app _ _ => False

/-- A formula that comes to something comes to a normal formula. -/
theorem Gives.normal {f r : Formula} {o : Except EvalError Formula} :
    Gives b f o → o = .ok r → Normal b r
  | .blank, ho => by
    obtain rfl := Except.ok.inj ho
    trivial
  | .const _, ho => by
    obtain rfl := Except.ok.inj ho
    trivial
  | .free h, ho => by
    obtain rfl := Except.ok.inj ho
    exact h
  | .bound _ hf, ho => hf.normal ho
  | .stopped _, ho => nomatch ho
  | .applied _, ho => by
    obtain ⟨n, -, rfl⟩ := Except.map_eq_ok_iff.mp ho
    trivial

/-- An operation that comes to something comes to a constant. -/
theorem Gives.eq_const_of_app {op : Operation} {args : List Formula} {r : Formula}
    (h : Gives b (.app op args) (.ok r)) : ∃ n, r = .const n := by
  generalize ho : (Except.ok r : Except EvalError Formula) = o at h
  cases h with
  | stopped => cases ho
  | applied =>
    obtain ⟨n, -, hn⟩ := Except.map_eq_ok_iff.mp ho.symm
    exact ⟨n, hn.symm⟩

theorem Normal.gives {r : Formula} (h : Normal b r) : Gives b r (.ok r) := by
  cases r with
  | blank => exact .blank
  | const n => exact .const n
  | ref name => exact .free h
  | app op args => exact h.elim

/-- Reduction leaves exactly the normal formulas as they are. -/
theorem reduce_eq_self_iff {r : Formula} : r.reduce b = .ok r ↔ Normal b r := by
  constructor
  · intro h
    exact (gives_of_reduce_eq_ok h).normal rfl
  · intro h
    exact h.gives.reduce_eq

/-- What a formula comes to is normal, a constant if the formula is an operation, and stays as it is when it
is reduced again. -/
theorem normal_of_reduce {f r : Formula} (h : f.reduce b = .ok r) :
    Normal b r ∧ ((∃ op args, f = .app op args) → ∃ n, r = .const n) ∧ r.reduce b = .ok r := by
  have hgives := gives_of_reduce_eq_ok h
  have hnormal : Normal b r := hgives.normal rfl
  refine ⟨hnormal, ?_, reduce_eq_self_iff.mpr hnormal⟩
  rintro ⟨op, args, rfl⟩
  exact hgives.eq_const_of_app

/-- A name that leads to a constant, and one that leads to a name that is not bound. -/
def twoEnds : Bindings :=
  .ofList [("A0", .ref "B0"), ("B0", .const 4), ("C0", .ref "D0"), ("D0", .ref "k")]

theorem twoEnds_normal :
    (Formula.app .times [.ref "A0", .ref "B0"]).reduce twoEnds = .ok (.const 16) ∧
      (∃ n, Formula.const 16 = .const n) ∧
      (Formula.ref "C0").reduce twoEnds = .ok (.ref "k") ∧ Normal twoEnds (.ref "k") ∧
      (Formula.ref "k").reduce twoEnds = .ok (.ref "k") := by
  have hA : twoEnds.find? "A0" = some (.ref "B0") := rfl
  have hB : twoEnds.find? "B0" = some (.const 4) := rfl
  have hC : twoEnds.find? "C0" = some (.ref "D0") := rfl
  have hD : twoEnds.find? "D0" = some (.ref "k") := rfl
  have hk : twoEnds.find? "k" = none := rfl
  have hproduct : (Formula.app .times [.ref "A0", .ref "B0"]).reduce twoEnds = .ok (.const 16) := by
    simp [reduce, reduceOn_app, demandAll_cons, reduceOn_ref, hA, hB, reduceOn, demandAll, demand,
      Except.map, Operation.times, Arithmetic.product]
  have hname : (Formula.ref "C0").reduce twoEnds = .ok (.ref "k") := by
    simp [reduce, reduceOn_ref, hC, hD, hk]
  obtain ⟨hnormal, -, hagain⟩ := normal_of_reduce hname
  exact ⟨hproduct, (normal_of_reduce hproduct).2.1 ⟨_, _, rfl⟩, hname, hnormal, hagain⟩

end FormulaGrid.Formula
