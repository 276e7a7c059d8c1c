import FormulaGrid.Proofs.CycleGuard
import FormulaGrid.Proofs.Locality
import Mathlib.Data.Set.Card

/-!
# Proofs.Depth — how deep reduction goes

`traceOn` is reduction with a record of its calls, and gives up where more references than it is allowed
would be in resolution at once.  The names on the path of a call are different and all bound
(`Call.Makes.resolving`), so there are never more of them than bound names.  With as many allowed nothing is
given up, and what is recorded is all of reduction, circular bindings or not (`trace_within_size`).
-/

namespace FormulaGrid

namespace Bindings

variable {b : Bindings} {path : List String}

/-- The number of bound names. -/
noncomputable def size (b : Bindings) : Nat := {name | ∃ f, b.find? name = some f}.ncard

theorem finite_bound (b : Bindings) : {name | ∃ f, b.find? name = some f}.Finite := by
  obtain ⟨names, h⟩ := b.finite
  exact names.finite_toSet.subset fun name ⟨f, hf⟩ => h name f hf

theorem size_le {names : List String} (h : ∀ name f, b.find? name = some f → name ∈ names) :
    b.size ≤ names.length := by
  have hsub : {name | ∃ f, b.find? name = some f} ⊆ (names.toFinset : Set String) :=
    fun name ⟨f, hf⟩ => Finset.mem_coe.mpr (List.mem_toFinset.mpr (h name f hf))
  calc b.size ≤ (names.toFinset : Set String).ncard := Set.ncard_le_ncard hsub (Finset.finite_toSet _)
    _ = names.toFinset.card := Set.ncard_coe_finset _
    _ ≤ names.length := names.toFinset_card_le

/-- Names that can be in resolution at once. -/
structure Resolving (b : Bindings) (path : List String) : Prop where
  nodup : path.Nodup
  bound : ∀ name ∈ path, ∃ f, b.find? name = some f

namespace Resolving

theorem nil : b.Resolving [] := ⟨.nil, by simp⟩

/-- A bound name goes on the path when it is not there yet. -/
theorem cons (h : b.Resolving path) {name : String} {f : Formula} (hf : b.find? name = some f)
    (hp : name ∉ path) : b.Resolving (name :: path) :=
  ⟨List.nodup_cons.mpr ⟨hp, h.nodup⟩, List.forall_mem_cons.mpr ⟨⟨f, hf⟩, h.bound⟩⟩

theorem length_le (h : b.Resolving path) : path.length ≤ b.size := by
  have hsub : (path.toFinset : Set String) ⊆ {name | ∃ f, b.find? name = some f} :=
    fun name hn => h.bound name (List.mem_toFinset.mp (Finset.mem_coe.mp hn))
  calc path.length = path.toFinset.card := (List.toFinset_card_of_nodup h.nodup).symm
    _ = (path.toFinset : Set String).ncard := (Set.ncard_coe_finset _).symm
    _ ≤ b.size := Set.ncard_le_ncard hsub b.finite_bound

end Resolving

end Bindings

namespace Formula

/-! ### Calls of reduction -/

/-- A call of reduction: the names in resolution and the formula to reduce. -/
structure Call where
  path : List String
  formula : Formula

/-- `a` is one of the arguments, and those before it are reduced to constants. -/
inductive InTurn (b : Bindings) (path : List String) (a : Formula) : List Formula → Prop
  | head {fs : List Formula} : InTurn b path a (a :: fs)
  | tail {f : Formula} {fs : List Formula} {n : Int64} (hf : reduceOn b path f = .ok (.const n))
      (ha : InTurn b path a fs) : InTurn b path a (f :: fs)

/-- One call of reduction makes another one. -/
inductive Call.Makes (b : Bindings) : Call → Call → Prop
  | resolve {path : List String} {name : String} {f : Formula} (h : b.find? name = some f)
      (hp : name ∉ path) : Makes b ⟨path, .ref name⟩ ⟨name :: path, f⟩
  | argument {path : List String} {op : Operation} {args : List Formula} {a : Formula}
      (h : InTurn b path a args) : Makes b ⟨path, .app op args⟩ ⟨path, a⟩

/-- One call of reduction makes another one, at once or by way of others, or is that call. -/
def Call.Leads (b : Bindings) : Call → Call → Prop := Relation.ReflTransGen (Makes b)

variable {b : Bindings} {path : List String}

theorem not_inTurn_nil {a : Formula} : ¬InTurn b path a [] := by
  intro h
  cases h

theorem inTurn_cons_iff {a f : Formula} {fs : List Formula} :
    InTurn b path a (f :: fs) ↔
      a = f ∨ (∃ n, reduceOn b path f = .ok (.const n)) ∧ InTurn b path a fs := by
  constructor
  · intro h
    cases h with
    | head => exact .inl rfl
    | tail hf ha => exact .inr ⟨⟨_, hf⟩, ha⟩
  · rintro (rfl | ⟨⟨n, hf⟩, ha⟩)
    · exact .head
    · exact .tail hf ha

namespace Call

theorem leads_iff {c d : Call} : c.Leads b d ↔ d = c ∨ ∃ e, c.Makes b e ∧ e.Leads b d := by
  rw [Leads, Relation.ReflTransGen.cases_head_iff, eq_comm]

theorem leads_of_makes_nothing {c d : Call} (h : ∀ e, ¬c.Makes b e) : c.Leads b d ↔ d = c := by
  simp [leads_iff (c := c), h]

theorem leads_ref_iff {name : String} {f : Formula} {d : Call} (h : b.find? name = some f)
    (hp : name ∉ path) :
    Leads b ⟨path, .ref name⟩ d ↔ d = ⟨path, .ref name⟩ ∨ Leads b ⟨name :: path, f⟩ d := by
  rw [leads_iff]
  refine or_congr_right ⟨?_, fun hd => ⟨_, .resolve h hp, hd⟩⟩
  rintro ⟨e, hmakes, hd⟩
  cases hmakes with
  | resolve h' =>
    cases h.symm.trans h'
    exact hd

theorem leads_app_iff {op : Operation} {args : List Formula} {d : Call} :
    Leads b ⟨path, .app op args⟩ d ↔
      d = ⟨path, .app op args⟩ ∨ ∃ a, InTurn b path a args ∧ Leads b ⟨path, a⟩ d := by
  rw [leads_iff]
  refine or_congr_right ⟨?_, fun ⟨a, ha, hd⟩ => ⟨_, .argument ha, hd⟩⟩
  rintro ⟨e, hmakes, hd⟩
  cases hmakes with
  | argument ha => exact ⟨_, ha, hd⟩

/-- The names on the path stay different and bound from one call to the next. -/
theorem Makes.resolving {c d : Call} (h : c.Makes b d) (hc : b.Resolving c.path) :
    b.Resolving d.path := by
  cases h with
  | resolve h hp => exact hc.cons h hp
  | argument => exact hc

theorem Leads.resolving {c d : Call} (h : c.Leads b d) (hc : b.Resolving c.path) :
    b.Resolving d.path := by
  induction h with
  | refl => exact hc
  | tail _ hmakes ih => exact hmakes.resolving ih

end Call

/-! ### Reduction with a record of its calls -/

mutual

/-- Reduction and the calls it makes, the first one first, unless there are ever to be more than `depth` names
in resolution besides those on `path`. -/
def traceOn (b : Bindings) (depth : Nat) (path : List String) :
    Formula → Option (List Call × Except EvalError Formula)
  | blank => some ([⟨path, blank⟩], .ok blank)
  | const n => some ([⟨path, const n⟩], .ok (const n))
  | ref name =>
    match b.find? name with
    | none => some ([⟨path, ref name⟩], .ok (ref name))
    | some f =>
      if name ∈ path then some ([⟨path, ref name⟩], .error (.circular name))
      else match depth with
        | 0 => none
        | depth + 1 => do
          let (calls, r) ← traceOn b depth (name :: path) f
          return (⟨path, ref name⟩ :: calls, r)
  | app op args => do
    let (calls, r) ← traceAll b depth path op.name args
    return (⟨path, app op args⟩ :: calls, do
      let ns ← r
      let n ← op.apply ns
      return const n)
termination_by f => (depth, sizeOf f)

/-- The numbers that `user` is given by its arguments, from left to right, and the calls made for them. -/
def traceAll (b : Bindings) (depth : Nat) (path : List String) (user : String) :
    List Formula → Option (List Call × Except EvalError (List Int64))
  | [] => some ([], .ok [])
  | f :: fs => do
    let (calls, r) ← traceOn b depth path f
    match r >>= demand user with
    | .error e => return (calls, .error e)
    | .ok n =>
      let (more, ns) ← traceAll b depth path user fs
      return (calls ++ more, ns.map (n :: ·))
termination_by fs => (depth, sizeOf fs)

end

/-- A record that is complete: it has the result `r` and the calls of which `P` holds, and no others. -/
def Completes {α : Type} (trace : Option (List Call × α)) (P : Call → Prop) (r : α) : Prop :=
  ∃ calls, trace = some (calls, r) ∧ ∀ call, call ∈ calls ↔ P call

theorem completes_leaf {α : Type} {call : Call} {r : α} (h : ∀ next, ¬call.Makes b next) :
    Completes (some ([call], r)) (call.Leads b) r :=
  ⟨_, rfl, fun _ => List.mem_singleton.trans (Call.leads_of_makes_nothing h).symm⟩

/-- With enough depth for all bound names that are not on the path, the record is one of reduction. -/
theorem traceOn_completes (b : Bindings) :
    (∀ path f, b.Resolving path → ∀ depth, b.size ≤ depth + path.length →
      Completes (traceOn b depth path f) (Call.Leads b ⟨path, f⟩) (reduceOn b path f)) ∧
    ∀ path user fs, b.Resolving path → ∀ depth, b.size ≤ depth + path.length →
      Completes (traceAll b depth path user fs)
        (fun call => ∃ a, InTurn b path a fs ∧ Call.Leads b ⟨path, a⟩ call)
        (demandAll b path user fs) := by
  refine reduceOn.mutual_induct b _ _ ?blank ?const ?unbound ?met ?bound ?app ?nil ?cons
  case blank =>
    intro path _ depth _
    rw [traceOn, reduceOn]
    refine completes_leaf fun next hnext => ?_
    cases hnext
  case const =>
    intro path n _ depth _
    rw [traceOn, reduceOn]
    refine completes_leaf fun next hnext => ?_
    cases hnext
  case unbound =>
    intro path name h _ depth _
    rw [traceOn, reduceOn_ref, h]
    refine completes_leaf fun next hnext => ?_
    cases hnext with
    | resolve h' => cases h.symm.trans h'
  case met =>
    intro path name f h hp _ depth _
    rw [traceOn, reduceOn_ref, h]
    simp only [if_pos hp]
    refine completes_leaf fun next hnext => ?_
    cases hnext with
    | resolve _ hp' => exact hp' hp
  case bound =>
    intro path name f h hp ih hpath depth hdepth
    have hcons := hpath.cons h hp
    have hlength := hcons.length_le
    rw [List.length_cons] at hlength
    -- the name that goes on the path is one of those the depth is counted for
    obtain ⟨depth, rfl⟩ : ∃ d, depth = d + 1 := ⟨depth - 1, by omega⟩
    obtain ⟨calls, hcalls, hmem⟩ := ih hcons depth (by rw [List.length_cons]; omega)
    rw [traceOn, reduceOn_ref, h]
    simp only [if_neg hp, hcalls]
    refine ⟨_, rfl, fun call => ?_⟩
    rw [List.mem_cons, hmem, Call.leads_ref_iff h hp]
  case app =>
    intro path op args ih hpath depth hdepth
    obtain ⟨calls, hcalls, hmem⟩ := ih hpath depth hdepth
    rw [traceOn, reduceOn, hcalls]
    refine ⟨_, rfl, fun call => ?_⟩
    rw [List.mem_cons, hmem, Call.leads_app_iff]
  case nil =>
    intro path user _ depth _
    rw [traceAll, demandAll]
    exact ⟨_, rfl, fun call => by simp [not_inTurn_nil]⟩
  case cons =>
    intro path user f fs ihf ihfs hpath depth hdepth
    obtain ⟨calls, hcalls, hmem⟩ := ihf hpath depth hdepth
    obtain ⟨more, hmore, hmem'⟩ := ihfs hpath depth hdepth
    rw [traceAll, demandAll_cons, hcalls]
    simp only [inTurn_cons_iff]
    cases hf : reduceOn b path f with
    | error e => exact ⟨_, rfl, fun call => by simp [hmem]⟩
    | ok r =>
      cases hr : r.demand user with
      | error e =>
        simp only [Option.bind_some, bind, Except.bind, hr]
        have hconst (n : Int64) : r ≠ .const n := fun h => by simp [h, demand] at hr
        exact ⟨_, rfl, fun call => by simp [hmem, hconst]⟩
      | ok n =>
        obtain rfl := demand_eq_ok_iff.mp hr
        simp only [Option.bind_some, bind, Except.bind, hr, hmore]
        refine ⟨_, rfl, fun call => ?_⟩
        rw [List.mem_append, hmem, hmem']
        simp

end Formula

namespace Sheet

/-- The names of a sheet are those of its cells and its builtins. -/
theorem size_bindings_le (s : Sheet) :
    s.bindings.size ≤ s.extent.rows.toNat * s.extent.columns.toNat + s.builtins.length := by
  have hmem : ∀ name f, s.bindings.find? name = some f →
      name ∈ s.extent.cells.map Cell.label ++ s.builtins.map Prod.fst := by
    intro name f h
    rcases resolve_cases h with ⟨i, rfl, -⟩ | ⟨h, -⟩
    · exact List.mem_append_left _ (List.mem_map_of_mem (List.mem_map_of_mem (List.mem_finRange i)))
    · exact List.mem_append_right _ (List.mem_map_of_mem (Bindings.mem_of_lookup_eq_some h))
  have hsize := Bindings.size_le hmem
  rwa [List.length_append, List.length_map, List.length_map, Extent.cells, List.length_map,
    List.length_finRange] at hsize

end Sheet

namespace Formula

/-- Reduction needs no more references in resolution at once than there are bound names, whatever they are bound
to: the record with that depth is complete, with all calls that are made and the result of reduction.  On the
path of each call are different names, all of them bound, and the call is itself complete with what is left of
the depth.  The bound names of a sheet are no more than its cells and builtins. -/
theorem trace_within_size :
    (∀ (b : Bindings) (f : Formula), ∃ calls, f.traceOn b b.size [] = some (calls, f.reduce b) ∧
      (∀ call, call ∈ calls ↔ Call.Leads b ⟨[], f⟩ call) ∧
      ∀ call ∈ calls, call.path.Nodup ∧ (∀ name ∈ call.path, ∃ g, b.find? name = some g) ∧
        call.path.length ≤ b.size ∧
        ∃ made, call.formula.traceOn b (b.size - call.path.length) call.path =
            some (made, call.formula.reduceOn b call.path) ∧
          ∀ next, next ∈ made ↔ Call.Leads b call next) ∧
    ∀ s : Sheet,
      s.bindings.size ≤ s.extent.rows.toNat * s.extent.columns.toNat + s.builtins.length := by
  refine ⟨fun b f => ?_, Sheet.size_bindings_le⟩
  obtain ⟨calls, hcalls, hmem⟩ := (traceOn_completes b).1 [] f .nil b.size (Nat.le_add_right _ _)
  refine ⟨calls, hcalls, hmem, fun call hcall => ?_⟩
  have hpath : b.Resolving call.path := ((hmem call).mp hcall).resolving .nil
  have hdepth : b.size ≤ b.size - call.path.length + call.path.length := by
    rw [Nat.sub_add_cancel hpath.length_le]
  exact ⟨hpath.nodup, hpath.bound, hpath.length_le,
    (traceOn_completes b).1 call.path call.formula hpath _ hdepth⟩

/-- Around a circle reduction has every bound name in resolution before it stops. -/
theorem twoCycle_traced :
    twoCycle.size = 2 ∧ ∃ calls,
      (ref "A0").traceOn twoCycle twoCycle.size [] = some (calls, .error (.circular "A0")) ∧
        ⟨["A1", "A0"], .ref "A0"⟩ ∈ calls := by
  have h0 : twoCycle.find? "A0" = some (.ref "A1") := rfl
  have h1 : twoCycle.find? "A1" = some (.app .plus [.ref "A0", .const 1]) := rfl
  have hreduce : (ref "A0").reduce twoCycle = .error (.circular "A0") := by
    simp [reduce, reduceOn_ref, reduceOn_app, demandAll_cons, h0, h1]
  obtain ⟨calls, hcalls, hmem, hpaths⟩ := trace_within_size.1 twoCycle (.ref "A0")
  have hcall : ⟨["A1", "A0"], .ref "A0"⟩ ∈ calls := by
    rw [hmem, Call.leads_ref_iff h0 (by decide), Call.leads_ref_iff h1 (by decide), Call.leads_app_iff]
    exact .inr (.inr (.inr ⟨_, .head, .refl⟩))
  obtain ⟨-, -, hlength, -⟩ := hpaths _ hcall
  have hbound : ∀ name f, twoCycle.find? name = some f → name ∈ ["A0", "A1"] := fun name f h =>
    List.mem_map_of_mem (f := Prod.fst) (Bindings.mem_of_lookup_eq_some h)
  have hsize : twoCycle.size ≤ 2 := Bindings.size_le hbound
  exact ⟨Nat.le_antisymm hsize hlength, calls, hreduce ▸ hcalls, hcall⟩

end Formula

end FormulaGrid
