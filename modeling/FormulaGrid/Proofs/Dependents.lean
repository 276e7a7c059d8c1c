import FormulaGrid.Dependents
import Mathlib.Data.List.Chain

/-!
# Proofs.Dependents — dependents are linked to their name by chains

A node uses a name directly or through other nodes of the same list.  What a pass finds is linked to one
of its names (`linked_of_mem_found`), and what it leaves goes on waiting for the names it found
(`Linked.split`), until a pass finds nothing and no linked node is left (`not_linked_of_found_eq_nil`).  So
the dependents of a name are the keys of exactly the linked nodes (`mem_dependents_iff`), whatever the order
of the nodes, and there is at most one pass more than there are nodes (`dependents_exact`).
-/

namespace FormulaGrid.Node

variable {κ : Type}

/-- A chain of nodes leads from a node to a name: each one uses the name of the next, and the last
one uses the name itself. -/
inductive Linked (nodes : List (Node κ)) (target : String) : Node κ → Prop
  | direct {n : Node κ} (hn : n ∈ nodes) (h : target ∈ n.formula.refs) : Linked nodes target n
  | through {n m : Node κ} (hn : n ∈ nodes) (h : m.name ∈ n.formula.refs)
      (hm : Linked nodes target m) : Linked nodes target n

theorem Linked.mem {nodes : List (Node κ)} {target : String} {n : Node κ}
    (h : Linked nodes target n) : n ∈ nodes := by
  cases h with
  | direct hn _ => exact hn
  | through hn _ _ => exact hn

theorem Linked.mono {nodes nodes' : List (Node κ)} {target : String} {n : Node κ}
    (hsub : ∀ m ∈ nodes, m ∈ nodes') (h : Linked nodes target n) : Linked nodes' target n := by
  induction h with
  | direct hn h => exact .direct (hsub _ hn) h
  | through hn h _ ih => exact .through (hsub _ hn) h ih

/-- A chain to the name of a linked node goes on to the target of that node. -/
theorem Linked.trans {nodes : List (Node κ)} {target : String} {m n : Node κ}
    (h : Linked nodes m.name n) (hm : Linked nodes target m) : Linked nodes target n := by
  induction h with
  | direct hn h => exact .through hn h hm
  | through hn h _ ih => exact .through hn h ih

/-! ### One pass -/

variable {names : List String} {nodes : List (Node κ)}

theorem usesAny_iff {n : Node κ} :
    n.usesAny names = true ↔ ∃ name ∈ names, name ∈ n.formula.refs := by
  simp [usesAny, and_comm]

theorem pass_of_usesAny {n : Node κ} (h : n.usesAny names = true) :
    pass names (n :: nodes) =
      ⟨n :: (pass (n.name :: names) nodes).found, (pass (n.name :: names) nodes).left⟩ := by
  simp [pass, h]

theorem pass_of_not_usesAny {n : Node κ} (h : ¬n.usesAny names = true) :
    pass names (n :: nodes) = ⟨(pass names nodes).found, n :: (pass names nodes).left⟩ := by
  simp [pass, h]

/-- A pass finds a node or leaves it. -/
theorem mem_pass_iff {n : Node κ} :
    n ∈ (pass names nodes).found ∨ n ∈ (pass names nodes).left ↔ n ∈ nodes := by
  induction nodes generalizing names with
  | nil => simp [pass]
  | cons m nodes ih =>
    by_cases h : m.usesAny names = true
    · rw [pass_of_usesAny h, List.mem_cons, List.mem_cons, or_assoc, ih]
    · rw [pass_of_not_usesAny h, List.mem_cons, List.mem_cons, or_left_comm, ih]

/-- A chain leads from each node that a pass finds to one of its names. -/
theorem linked_of_mem_found {n : Node κ} (h : n ∈ (pass names nodes).found) :
    ∃ target ∈ names, Linked nodes target n := by
  induction nodes generalizing names with
  | nil => simp [pass] at h
  | cons m nodes ih =>
    have hsub : ∀ k ∈ nodes, k ∈ m :: nodes := fun k hk => List.mem_cons_of_mem m hk
    by_cases hm : m.usesAny names = true
    · obtain ⟨name, hname, href⟩ := usesAny_iff.mp hm
      have hfirst : Linked (m :: nodes) name m := .direct (by simp) href
      rw [pass_of_usesAny hm, List.mem_cons] at h
      rcases h with rfl | h
      · exact ⟨name, hname, hfirst⟩
      · -- what is found after the node is linked to one of the names or to the node's own name
        obtain ⟨target, ht, hl⟩ := ih h
        rcases List.mem_cons.mp ht with rfl | ht
        · exact ⟨name, hname, (hl.mono hsub).trans hfirst⟩
        · exact ⟨target, ht, hl.mono hsub⟩
    · rw [pass_of_not_usesAny hm] at h
      obtain ⟨target, ht, hl⟩ := ih h
      exact ⟨target, ht, hl.mono hsub⟩

/-- A pass that finds nothing goes over nodes that use none of its names. -/
theorem not_usesAny_of_found_eq_nil (h : (pass names nodes).found = []) :
    ∀ n ∈ nodes, ¬n.usesAny names = true := by
  induction nodes with
  | nil => simp
  | cons m nodes ih =>
    by_cases hm : m.usesAny names = true
    · simp [pass_of_usesAny hm] at h
    · rw [pass_of_not_usesAny hm] at h
      exact List.forall_mem_cons.mpr ⟨hm, ih h⟩

/-- No chain leads to a name of a pass that finds nothing. -/
theorem not_linked_of_found_eq_nil (h : (pass names nodes).found = []) {target : String}
    (ht : target ∈ names) {n : Node κ} : ¬Linked nodes target n := by
  intro hl
  induction hl with
  | direct hn href => exact not_usesAny_of_found_eq_nil h _ hn (usesAny_iff.mpr ⟨target, ht, href⟩)
  | through _ _ _ ih => exact ih

/-- A chain to a name of a pass starts at a node that the pass finds, or it leads through the nodes that
the pass leaves to the name of a found one or to the same name. -/
theorem Linked.split {target : String} {n : Node κ} (h : Linked nodes target n) (ht : target ∈ names) :
    n ∈ (pass names nodes).found ∨
      ∃ t ∈ (pass names nodes).found.map Node.name ++ names, Linked (pass names nodes).left t n := by
  induction h with
  | direct hn href =>
    refine (mem_pass_iff.mpr hn).imp_right fun hleft => ?_
    exact ⟨target, List.mem_append_right _ ht, .direct hleft href⟩
  | through hn href _ ih =>
    refine (mem_pass_iff.mpr hn).imp_right fun hleft => ?_
    rcases ih with hm | ⟨t, htm, hl⟩
    · exact ⟨_, List.mem_append_left _ (List.mem_map_of_mem hm), .direct hleft href⟩
    · exact ⟨t, htm, .through hleft href hl⟩

/-! ### All passes -/

/-- The passes find exactly the nodes from which a chain leads to one of the names. -/
theorem mem_flatten_passes_iff {n : Node κ} :
    n ∈ (passes names nodes).flatten ↔ ∃ target ∈ names, Linked nodes target n := by
  fun_induction passes names nodes with
  | case1 names nodes p h =>
    have hnil : (pass names nodes).found = [] := List.isEmpty_iff.mp h
    simp only [List.flatten_cons, List.flatten_nil, List.append_nil, List.not_mem_nil, false_iff]
    rintro ⟨target, ht, hl⟩
    exact not_linked_of_found_eq_nil hnil ht hl
  | case2 names nodes p h ih =>
    have hsub : ∀ m ∈ p.left, m ∈ nodes := fun m hm => mem_pass_iff.mp (.inr hm)
    rw [List.flatten_cons, List.mem_append, ih]
    constructor
    · rintro (hn | ⟨t, ht, hl⟩)
      · exact linked_of_mem_found hn
      · rcases List.mem_append.mp ht with ht | ht
        · obtain ⟨m, hm, rfl⟩ := List.mem_map.mp ht
          obtain ⟨target, ht, hlm⟩ := linked_of_mem_found hm
          exact ⟨target, ht, (hl.mono hsub).trans hlm⟩
        · exact ⟨t, ht, hl.mono hsub⟩
    · rintro ⟨target, ht, hl⟩
      exact hl.split ht

/-- Every pass but the last one finds a node. -/
theorem length_passes_le (names : List String) (nodes : List (Node κ)) :
    (passes names nodes).length ≤ nodes.length + 1 := by
  fun_induction passes names nodes with
  | case1 => simp
  | case2 names nodes p h ih =>
    have hlt : p.left.length < nodes.length := length_left_lt h
    rw [List.length_cons]
    omega

theorem mem_passes_singleton_iff {target : String} {n : Node κ} :
    n ∈ (passes [target] nodes).flatten ↔ Linked nodes target n := by
  simp only [mem_flatten_passes_iff, List.mem_singleton, exists_eq_left]

/-- The dependents of a name are the keys of the nodes from which a chain leads to it. -/
theorem mem_dependents_iff {nodes : List (Node κ)} {name : String} {k : κ} :
    k ∈ dependents nodes name ↔ ∃ n, Linked nodes name n ∧ n.key = k := by
  simp only [dependents, List.mem_map, mem_passes_singleton_iff]

/-! ### Chains written out -/

/-- A list of nodes is a chain to a name: each one depends on the name of the next, and the last one on
the name itself. -/
structure IsChainTo (nodes : List (Node κ)) (target : String) (chain : List (Node κ)) : Prop where
  mem : ∀ n ∈ chain, n ∈ nodes
  next : chain.IsChain fun n m => m.name ∈ n.formula.dependencies
  last : ∃ n, chain.getLast? = some n ∧ target ∈ n.formula.dependencies

theorem isChainTo_singleton {target : String} {n : Node κ} :
    IsChainTo nodes target [n] ↔ n ∈ nodes ∧ target ∈ n.formula.refs := by
  constructor
  · rintro ⟨hmem, -, m, hlast, ht⟩
    obtain rfl : n = m := by simpa using hlast
    exact ⟨hmem n (by simp), Formula.mem_dependencies.mp ht⟩
  · rintro ⟨hn, ht⟩
    exact ⟨by simpa using hn, .singleton n, n, rfl, Formula.mem_dependencies.mpr ht⟩

theorem isChainTo_cons_cons {target : String} {n m : Node κ} {rest : List (Node κ)} :
    IsChainTo nodes target (n :: m :: rest) ↔
      n ∈ nodes ∧ m.name ∈ n.formula.refs ∧ IsChainTo nodes target (m :: rest) := by
  constructor
  · rintro ⟨hmem, hnext, hlast⟩
    obtain ⟨hn, hmem⟩ := List.forall_mem_cons.mp hmem
    obtain ⟨href, hnext⟩ := List.isChain_cons_cons.mp hnext
    rw [List.getLast?_cons_cons] at hlast
    exact ⟨hn, Formula.mem_dependencies.mp href, hmem, hnext, hlast⟩
  · rintro ⟨hn, href, hmem, hnext, hlast⟩
    refine ⟨List.forall_mem_cons.mpr ⟨hn, hmem⟩, ?_, ?_⟩
    · exact List.isChain_cons_cons.mpr ⟨Formula.mem_dependencies.mpr href, hnext⟩
    · rwa [List.getLast?_cons_cons]

/-- Each node of a chain is linked to the name that the chain leads to. -/
theorem IsChainTo.linked {target : String} {chain : List (Node κ)} (h : IsChainTo nodes target chain) :
    ∀ n ∈ chain, Linked nodes target n := by
  induction chain with
  | nil => simp
  | cons n rest ih =>
    cases rest with
    | nil =>
      obtain ⟨hn, ht⟩ := isChainTo_singleton.mp h
      simpa using Linked.direct hn ht
    | cons m rest =>
      obtain ⟨hn, href, h⟩ := isChainTo_cons_cons.mp h
      have hrest := ih h
      exact List.forall_mem_cons.mpr ⟨.through hn href (hrest m (by simp)), hrest⟩

theorem linked_iff_exists_chain {target : String} {n : Node κ} :
    Linked nodes target n ↔ ∃ rest, IsChainTo nodes target (n :: rest) := by
  constructor
  · intro h
    induction h with
    | direct hn ht => exact ⟨[], isChainTo_singleton.mpr ⟨hn, ht⟩⟩
    | through hn href _ ih =>
      obtain ⟨rest, h⟩ := ih
      exact ⟨_, isChainTo_cons_cons.mpr ⟨hn, href, h⟩⟩
  · rintro ⟨rest, h⟩
    exact h.linked n (by simp)

/-- The dependents of a name are the keys of the nodes at which a chain to it starts.  The nodes that are
found are those on such chains, the node with that name itself being one of them only if it is on one.  The
order of the nodes does not matter, and there is at most one pass more than there are nodes. -/
theorem dependents_exact (nodes : List (Node κ)) (target : String) :
    (∀ k, k ∈ dependents nodes target ↔
      ∃ n rest, n.key = k ∧ IsChainTo nodes target (n :: rest)) ∧
    (∀ n, n ∈ (passes [target] nodes).flatten ↔
      ∃ chain, IsChainTo nodes target chain ∧ n ∈ chain) ∧
    (∀ nodes', nodes'.Perm nodes →
      ∀ k, k ∈ dependents nodes' target ↔ k ∈ dependents nodes target) ∧
    (passes [target] nodes).length ≤ nodes.length + 1 := by
  refine ⟨fun k => ?_, fun n => ?_, fun nodes' hperm k => ?_, length_passes_le [target] nodes⟩
  · simp only [mem_dependents_iff, linked_iff_exists_chain]
    constructor
    · rintro ⟨n, ⟨rest, h⟩, hk⟩
      exact ⟨n, rest, hk, h⟩
    · rintro ⟨n, rest, hk, h⟩
      exact ⟨n, ⟨rest, h⟩, hk⟩
  · rw [mem_passes_singleton_iff]
    constructor
    · intro h
      obtain ⟨rest, hchain⟩ := linked_iff_exists_chain.mp h
      exact ⟨_, hchain, by simp⟩
    · rintro ⟨chain, hchain, hn⟩
      exact hchain.linked n hn
  · have hlinked : ∀ n, Linked nodes' target n ↔ Linked nodes target n := fun n =>
      ⟨.mono fun m => hperm.mem_iff.mp, .mono fun m => hperm.mem_iff.mpr⟩
    simp only [mem_dependents_iff, hlinked]

/-- Two nodes that use each other. -/
def mutualPair : List (Node Nat) := [⟨0, "A0", .ref "A1"⟩, ⟨1, "A1", .ref "A0"⟩]

theorem mutualPair_self_dependent :
    0 ∈ dependents mutualPair.reverse "A0" ∧ (passes ["A0"] mutualPair).length ≤ 3 := by
  obtain ⟨hkeys, -, hperm, hpasses⟩ := dependents_exact mutualPair "A0"
  have hlast : IsChainTo mutualPair "A0" [⟨1, "A1", .ref "A0"⟩] :=
    isChainTo_singleton.mpr ⟨by simp [mutualPair], by simp⟩
  have hchain : IsChainTo mutualPair "A0" [⟨0, "A0", .ref "A1"⟩, ⟨1, "A1", .ref "A0"⟩] :=
    isChainTo_cons_cons.mpr ⟨by simp [mutualPair], by simp, hlast⟩
  refine ⟨(hperm _ (List.reverse_perm mutualPair) 0).mpr ?_, hpasses⟩
  exact (hkeys 0).mpr ⟨_, _, rfl, hchain⟩

end FormulaGrid.Node
