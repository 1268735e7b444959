import Compliance.Proofs.Reach

/-! # The nodes that the check visits

The check goes through a tree depth first, a node before what is in it and each key before its
value, and ends at the first node of a foreign type.

* `Tree.Supported`: a node that a document may hold; `exists_kind?_iff`: these are the nodes that
  have a kind.
* `Tree.Holds`: a value or a key anywhere in a tree.
* `Tree.nodes`: all nodes in the order of the check; `mem_nodes`: they are what the tree holds.
* `check_eq_verdict`: the check is the verdict on these nodes in order.
* `check_eq_ok`, `check_eq_error`: when a tree passes, and what else is found.
-/

namespace Compliance.Tree

/-- The node is of no foreign type. -/
def Supported (t : Tree) : Prop := ∀ f, t ≠ .foreign f

/-- `u` stands in a tree, as a value or as a key of a mapping. -/
def Holds (t u : Tree) : Prop :=
  Within u t ∨
    ∃ entries key value, Within (.map entries) t ∧ (key, value) ∈ entries ∧ u = .scalar key

mutual

/-- The nodes of a tree in depth-first order, a key being a node of its own before its value. -/
def nodes : Tree → List Tree
  | .scalar s => [.scalar s]
  | .seq items => .seq items :: nodesOfItems items
  | .map entries => .map entries :: nodesOfEntries entries

def nodesOfItems : List Tree → List Tree
  | [] => []
  | t :: r => nodes t ++ nodesOfItems r

def nodesOfEntries : List (Scalar × Tree) → List Tree
  | [] => []
  | (key, t) :: r => .scalar key :: (nodes t ++ nodesOfEntries r)

end

/-! ## What is visited -/

theorem nodesOfItems_eq (items : List Tree) : nodesOfItems items = items.flatMap nodes := by
  induction items with
  | nil => rfl
  | cons t r ih => rw [nodesOfItems, ih, List.flatMap_cons]

theorem nodesOfEntries_eq (entries : List (Scalar × Tree)) :
    nodesOfEntries entries = entries.flatMap fun e => .scalar e.1 :: nodes e.2 := by
  induction entries with
  | nil => rfl
  | cons e r ih => rw [nodesOfEntries, ih, List.flatMap_cons, List.cons_append]

theorem mem_nodes_self (t : Tree) : t ∈ nodes t := by
  cases t <;> simp [nodes]

theorem nodes_subset {t u : Tree} (h : Within u t) : nodes u ⊆ nodes t := by
  induction h with
  | here => exact fun _ hv => hv
  | under he _ ih =>
    intro v hv
    rw [nodes, nodesOfEntries_eq]
    exact List.mem_cons_of_mem _
      (List.mem_flatMap.mpr ⟨_, he, List.mem_cons_of_mem _ (ih hv)⟩)
  | among ht _ ih =>
    intro v hv
    rw [nodes, nodesOfItems_eq]
    exact List.mem_cons_of_mem _ (List.mem_flatMap.mpr ⟨_, ht, ih hv⟩)

theorem Holds.of_within {t u v : Tree} (h : Within u t) (hv : Holds u v) : Holds t v := by
  rcases hv with hv | ⟨entries, key, value, hm, he, rfl⟩
  · exact .inl (h.trans hv)
  · exact .inr ⟨entries, key, value, h.trans hm, he, rfl⟩

mutual

theorem holds_of_mem_nodes : ∀ {t u : Tree}, u ∈ nodes t → Holds t u
  | .scalar s, u, h => by
    obtain rfl := List.mem_singleton.mp h
    exact .inl .here
  | .seq items, u, h => by
    rcases List.mem_cons.mp h with rfl | hi
    · exact .inl .here
    · obtain ⟨t, ht, hu⟩ := holds_of_mem_nodesOfItems hi
      exact hu.of_within (.among ht .here)
  | .map entries, u, h => by
    rcases List.mem_cons.mp h with rfl | he
    · exact .inl .here
    · obtain ⟨e, hin, rfl | hu⟩ := holds_of_mem_nodesOfEntries he
      · exact .inr ⟨entries, e.1, e.2, .here, hin, rfl⟩
      · exact hu.of_within (.under hin .here)

theorem holds_of_mem_nodesOfItems : ∀ {items : List Tree} {u : Tree}, u ∈ nodesOfItems items →
    ∃ t ∈ items, Holds t u
  | [], _, h => absurd h List.not_mem_nil
  | t :: r, u, h => by
    rcases List.mem_append.mp h with hfirst | hrest
    · exact ⟨t, List.mem_cons_self, holds_of_mem_nodes hfirst⟩
    · obtain ⟨v, hv, hu⟩ := holds_of_mem_nodesOfItems hrest
      exact ⟨v, List.mem_cons_of_mem _ hv, hu⟩

theorem holds_of_mem_nodesOfEntries : ∀ {entries : List (Scalar × Tree)} {u : Tree},
    u ∈ nodesOfEntries entries → ∃ e ∈ entries, u = .scalar e.1 ∨ Holds e.2 u
  | [], _, h => absurd h List.not_mem_nil
  | (key, t) :: r, u, h => by
    rcases List.mem_cons.mp h with rfl | h
    · exact ⟨(key, t), List.mem_cons_self, .inl rfl⟩
    rcases List.mem_append.mp h with hvalue | hrest
    · exact ⟨(key, t), List.mem_cons_self, .inr (holds_of_mem_nodes hvalue)⟩
    · obtain ⟨e, he, hu⟩ := holds_of_mem_nodesOfEntries hrest
      exact ⟨e, List.mem_cons_of_mem _ he, hu⟩

end

/-- **The nodes visited are the values and keys of the tree.** -/
theorem mem_nodes {t u : Tree} : u ∈ nodes t ↔ Holds t u := by
  refine ⟨holds_of_mem_nodes, fun h => ?_⟩
  rcases h with hu | ⟨entries, key, value, hm, he, rfl⟩
  · exact nodes_subset hu (mem_nodes_self u)
  · refine nodes_subset hm ?_
    rw [nodes, nodesOfEntries_eq]
    exact List.mem_cons_of_mem _ (List.mem_flatMap.mpr ⟨_, he, List.mem_cons_self⟩)

/-! ## The verdict -/

/-- The foreign type of a node, if it is of one. -/
def foreign? : Tree → Option Foreign
  | .foreign f => some f
  | _ => none

theorem foreign?_eq_some {t : Tree} {f : Foreign} : t.foreign? = some f ↔ t = .foreign f := by
  unfold foreign?
  split
  · simp
  · rename_i h
    simp only [reduceCtorEq, false_iff]
    exact h f

theorem foreign?_eq_none {t : Tree} : t.foreign? = none ↔ t.Supported := by
  rw [Option.eq_none_iff_forall_ne_some]
  exact forall_congr' fun f => not_congr foreign?_eq_some

/-- The kind of a node is settled by its foreign type, if it is of one. -/
theorem kind?_of_foreign? (t : Tree) :
    match t.foreign? with
    | none => ∃ k, t.kind? = .ok k
    | some f => t.kind? = .error (.unsupported f) := by
  cases t with
  | seq items => exact ⟨.sequence, rfl⟩
  | map entries => exact ⟨.mapping, rfl⟩
  | scalar s => cases s <;> first | exact ⟨_, rfl⟩ | rfl

/-- **The nodes that have a kind** are those of no foreign type. -/
theorem exists_kind?_iff {t : Tree} : (∃ k, t.kind? = .ok k) ↔ t.Supported := by
  rw [← foreign?_eq_none]
  have h := kind?_of_foreign? t
  cases hf : t.foreign? with
  | none =>
    rw [hf] at h
    exact iff_of_true h rfl
  | some f =>
    rw [hf] at h
    simp [h]

/-- The first foreign type among nodes is a fault. -/
def verdict (visited : List Tree) : Except KindFault Unit :=
  match visited.findSome? foreign? with
  | none => .ok ()
  | some f => .error (.unsupported f)

theorem verdict_cons (t : Tree) (visited : List Tree) :
    verdict (t :: visited) =
      match t.kind? with
      | .error e => .error e
      | .ok _ => verdict visited := by
  unfold verdict
  rw [List.findSome?_cons]
  have h := kind?_of_foreign? t
  cases hf : t.foreign? with
  | none =>
    rw [hf] at h
    obtain ⟨k, hk⟩ := h
    rw [hk]
  | some f =>
    rw [hf] at h
    rw [h]

theorem verdict_append (front back : List Tree) :
    verdict (front ++ back) =
      match verdict front with
      | .error e => .error e
      | .ok () => verdict back := by
  unfold verdict
  rw [List.findSome?_append]
  cases front.findSome? foreign? <;> rfl

mutual

/-- **The check is the verdict on the nodes in order.** -/
theorem check_eq_verdict : ∀ t : Tree, t.check = verdict t.nodes
  | .scalar s => by
    have hkind : (Tree.scalar s).kind? = s.kind? := rfl
    rw [check, nodes, verdict_cons, hkind]
    cases s.kind? <;> rfl
  | .seq items => by
    rw [check, nodes, verdict_cons, checkItems_eq_verdict items]
    rfl
  | .map entries => by
    rw [check, nodes, verdict_cons, checkEntries_eq_verdict entries]
    rfl

theorem checkItems_eq_verdict : ∀ items : List Tree,
    checkItems items = verdict (nodesOfItems items)
  | [] => rfl
  | t :: r => by
    rw [checkItems, nodesOfItems, check_eq_verdict t, checkItems_eq_verdict r]
    exact (verdict_append _ _).symm

theorem checkEntries_eq_verdict : ∀ entries : List (Scalar × Tree),
    checkEntries entries = verdict (nodesOfEntries entries)
  | [] => rfl
  | (key, t) :: r => by
    rw [checkEntries, nodesOfEntries, verdict_cons, verdict_append, check_eq_verdict t,
      checkEntries_eq_verdict r]
    rfl

end

/-- **A tree passes the check** exactly if all that it holds is supported. -/
theorem check_eq_ok {t : Tree} : t.check = .ok () ↔ ∀ u, t.Holds u → u.Supported := by
  have hnodes : (∀ u, t.Holds u → u.Supported) ↔ t.nodes.findSome? foreign? = none := by
    rw [List.findSome?_eq_none_iff]
    exact forall_congr' fun u => imp_congr mem_nodes.symm foreign?_eq_none.symm
  rw [hnodes, check_eq_verdict, verdict]
  cases t.nodes.findSome? foreign? <;> simp

/-- **Any other tree fails at the first node of a foreign type**, and the fault is of that type. -/
theorem check_eq_error {t : Tree} {fault : KindFault} :
    t.check = .error fault ↔ ∃ before f after, t.nodes = before ++ .foreign f :: after ∧
      (∀ u ∈ before, u.Supported) ∧ fault = .unsupported f := by
  have hfirst : ∀ f, t.nodes.findSome? foreign? = some f ↔
      ∃ before after, t.nodes = before ++ .foreign f :: after ∧ ∀ u ∈ before, u.Supported := by
    intro f
    simp only [List.findSome?_eq_some_iff, foreign?_eq_some, foreign?_eq_none]
    constructor
    · rintro ⟨before, u, after, hsplit, rfl, hbefore⟩
      exact ⟨before, after, hsplit, hbefore⟩
    · rintro ⟨before, after, hsplit, hbefore⟩
      exact ⟨before, _, after, hsplit, rfl, hbefore⟩
  have hfault : t.check = .error fault ↔
      ∃ f, t.nodes.findSome? foreign? = some f ∧ fault = .unsupported f := by
    rw [check_eq_verdict, verdict]
    cases t.nodes.findSome? foreign? with
    | none => simp
    | some f => simp [eq_comm]
  rw [hfault]
  constructor
  · rintro ⟨f, hf, rfl⟩
    obtain ⟨before, after, hsplit, hbefore⟩ := (hfirst f).mp hf
    exact ⟨before, f, after, hsplit, hbefore, rfl⟩
  · rintro ⟨before, f, after, hsplit, hbefore, rfl⟩
    exact ⟨f, (hfirst f).mpr ⟨before, after, hsplit, hbefore⟩, rfl⟩

-- the list of a value is looked into before the next key
example : (Tree.map [(.str "a", .seq [.int 1, .foreign (.tuple 2)]),
    (.foreign (.bytes [0x2D]), .null)]).check = .error (.unsupported (.tuple 2)) := rfl

end Compliance.Tree
