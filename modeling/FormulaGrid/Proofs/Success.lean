/-!
# Proofs.Success — computations that succeed and that fail

A computation in steps succeeds when all of its steps do, and a list of computations when all of its
members do.  Each fails like one of its steps or members.  A program over a state runs its steps in the same
way, and where one fails the state is the one it has by then.
-/

namespace Except

variable {ε ε' α β : Type}

theorem bind_eq_ok_iff {x : Except ε α} {f : α → Except ε β} {r : β} :
    (x >>= f) = .ok r ↔ ∃ a, x = .ok a ∧ f a = .ok r := by
  cases x <;> simp [bind, Except.bind]

theorem bind_eq_error_iff {x : Except ε α} {f : α → Except ε β} {e : ε} :
    (x >>= f) = .error e ↔ x = .error e ∨ ∃ a, x = .ok a ∧ f a = .error e := by
  cases x <;> simp [bind, Except.bind]

theorem map_eq_ok_iff {x : Except ε α} {f : α → β} {r : β} :
    x.map f = .ok r ↔ ∃ a, x = .ok a ∧ f a = r := by
  cases x <;> simp [Except.map]

theorem map_eq_error_iff {x : Except ε α} {f : α → β} {e : ε} :
    x.map f = .error e ↔ x = .error e := by
  cases x <;> simp [Except.map]

@[simp] theorem mapError_ok {f : ε → ε'} {a : α} : (ok a).mapError f = ok a := rfl

@[simp] theorem mapError_error {f : ε → ε'} {e : ε} :
    (error e : Except ε α).mapError f = error (f e) := rfl

theorem mapError_eq_ok_iff {x : Except ε α} {f : ε → ε'} {a : α} :
    x.mapError f = .ok a ↔ x = .ok a := by
  cases x <;> simp

theorem mapError_eq_error_iff {x : Except ε α} {f : ε → ε'} {e : ε'} :
    x.mapError f = .error e ↔ ∃ e', x = .error e' ∧ f e' = e := by
  cases x <;> simp

theorem toOption_eq_some_iff {x : Except ε α} {a : α} : x.toOption = some a ↔ x = .ok a := by
  cases x <;> simp [Except.toOption]

theorem toOption_mapError (f : ε → ε') (x : Except ε α) : (x.mapError f).toOption = x.toOption := by
  cases x <;> rfl

theorem mapM_cons_eq_ok_iff {f : α → Except ε β} {a : α} {as : List α} {rs : List β} :
    (a :: as).mapM f = .ok rs ↔ ∃ r rest, f a = .ok r ∧ as.mapM f = .ok rest ∧ rs = r :: rest := by
  simp only [List.mapM_cons, bind_eq_ok_iff]
  constructor
  · rintro ⟨r, hr, rest, hrest, h⟩
    exact ⟨r, rest, hr, hrest, (Except.ok.inj h).symm⟩
  · rintro ⟨r, rest, hr, hrest, rfl⟩
    exact ⟨r, hr, rest, hrest, rfl⟩

theorem mapM_eq_ok_map {f : α → Except ε β} {g : α → β} {as : List α}
    (h : ∀ a ∈ as, f a = .ok (g a)) : as.mapM f = .ok (as.map g) := by
  induction as with
  | nil => rfl
  | cons a as ih =>
    exact mapM_cons_eq_ok_iff.mpr ⟨_, _, h a (by simp), ih fun x hx => h x (by simp [hx]), rfl⟩

theorem length_of_mapM {f : α → Except ε β} {as : List α} {rs : List β}
    (h : as.mapM f = .ok rs) : rs.length = as.length := by
  induction as generalizing rs with
  | nil =>
    obtain rfl : [] = rs := Except.ok.inj h
    rfl
  | cons a as ih =>
    obtain ⟨r, rest, -, hrest, rfl⟩ := mapM_cons_eq_ok_iff.mp h
    rw [List.length_cons, List.length_cons, ih hrest]

theorem exists_of_mem_mapM {f : α → Except ε β} {as : List α} {rs : List β}
    (h : as.mapM f = .ok rs) : ∀ r ∈ rs, ∃ a ∈ as, f a = .ok r := by
  induction as generalizing rs with
  | nil =>
    obtain rfl : [] = rs := Except.ok.inj h
    simp
  | cons a as ih =>
    obtain ⟨r, rest, hr, hrest, rfl⟩ := mapM_cons_eq_ok_iff.mp h
    intro x hx
    rcases List.mem_cons.mp hx with rfl | hx
    · exact ⟨a, by simp, hr⟩
    · obtain ⟨a', ha', hx'⟩ := ih hrest x hx
      exact ⟨a', by simp [ha'], hx'⟩

/-- A list of computations fails like one of its members. -/
theorem exists_of_mapM_eq_error {f : α → Except ε β} {as : List α} {e : ε}
    (h : as.mapM f = .error e) : ∃ a ∈ as, f a = .error e := by
  induction as with
  | nil => cases h
  | cons a as ih =>
    rw [List.mapM_cons, bind_eq_error_iff] at h
    rcases h with ha | ⟨r, -, h⟩
    · exact ⟨a, by simp, ha⟩
    · rcases bind_eq_error_iff.mp h with has | ⟨rs, -, hpure⟩
      · obtain ⟨a', ha', he⟩ := ih has
        exact ⟨a', by simp [ha'], he⟩
      · cases hpure

end Except

namespace EStateM

variable {ε ε' σ α β : Type}

theorem run_get_bind (k : σ → EStateM ε σ β) (s : σ) : (get >>= k).run s = (k s).run s := rfl

theorem run_ofExcept_bind (x : Except ε α) (k : α → EStateM ε σ β) (s : σ) :
    (MonadExcept.ofExcept x >>= k).run s =
      match x with
      | .ok a => (k a).run s
      | .error e => .error e s := by
  cases x <;> rfl

end EStateM
