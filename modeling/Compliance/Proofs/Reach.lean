import Compliance.Proofs.TableFacts
import Compliance.Tree.Basic

/-! # Nodes of a tree

A value under some keys of a mapping, at any depth, is reached without passing through a list. What
merging guarantees, it guarantees of exactly these nodes: lists are united item by item and never
merged inside.

* `Tree.Reaches t u`: `u` is `t` or stands in `t` under a row of keys.
* `Tree.Throughout P t`: every such node of `t` is in `P`; `throughout_map`, `throughout_scalar` and
  `throughout_seq` unfold it by one level.
* `Tree.mappingAt`: the mapping under a text key, which may be empty for want of one.
* `Tree.DistinctNode`: no two keys of a mapping count as one; `distinct_entries`,
  `distinct_mappingAt` hand this on to the entries of a node and to a mapping under a text key.
* `Tree.Within u t`: `u` is part of `t` in whatever way; `allWithin` checks every part.
* `Tree.KeysDistinct`: distinct keys at every depth, inside lists too.
-/

namespace Compliance.Tree

/-- `u` is reached from a tree through mappings only. -/
inductive Reaches (u : Tree) : Tree → Prop where
  | here : Reaches u u
  | under {entries : Mapping} {key : Scalar} {t : Tree} :
      (key, t) ∈ entries → Reaches u t → Reaches u (.map entries)

/-- Every node reached through mappings is in `P`. -/
def Throughout (P : Tree → Prop) (t : Tree) : Prop := ∀ u, Reaches u t → P u

variable {P : Tree → Prop}

theorem Throughout.here {t : Tree} (h : Throughout P t) : P t := h t .here

theorem throughout_of_forall (h : ∀ u, P u) (t : Tree) : Throughout P t := fun u _ => h u

theorem throughout_scalar {s : Scalar} : Throughout P (.scalar s) ↔ P (.scalar s) := by
  refine ⟨Throughout.here, fun h u hu => ?_⟩
  cases hu with
  | here => exact h

theorem throughout_seq {items : List Tree} : Throughout P (.seq items) ↔ P (.seq items) := by
  refine ⟨Throughout.here, fun h u hu => ?_⟩
  cases hu with
  | here => exact h

theorem throughout_map {entries : Mapping} :
    Throughout P (.map entries) ↔ P (.map entries) ∧ ∀ e ∈ entries, Throughout P e.2 := by
  refine ⟨fun h => ⟨h.here, fun e he u hu => h u (.under he hu)⟩, fun h u hu => ?_⟩
  cases hu with
  | here => exact h.1
  | under he hu => exact h.2 _ he u hu

/-! ## Fields -/

theorem Throughout.get? {entries : Mapping} {key : Scalar} {t : Tree}
    (h : Throughout P (.map entries)) (hg : Table.get? entries key = some t) : Throughout P t := by
  obtain ⟨k, hm, -⟩ := Table.mem_of_get? hg
  exact (throughout_map.mp h).2 _ hm

theorem mapField?_eq_some {m es : Mapping} {name : String} :
    mapField? m name = some es ↔ field? m name = some (.map es) := by
  unfold mapField?
  split
  · rename_i hf
    simp [hf]
  · rename_i hf
    simp only [reduceCtorEq, false_iff]
    exact hf es

/-- The mapping under a text key, empty if there is none. -/
def mappingAt (m : Mapping) (name : String) : Mapping := (mapField? m name).getD []

theorem field?_of_mem_mappingAt {m : Mapping} {name : String} {e : Scalar × Tree}
    (h : e ∈ mappingAt m name) : field? m name = some (.map (mappingAt m name)) := by
  unfold mappingAt at h ⊢
  cases hf : mapField? m name with
  | none =>
    rw [hf] at h
    exact absurd h List.not_mem_nil
  | some es => exact mapField?_eq_some.mp hf

theorem Throughout.mapField? {m es : Mapping} {name : String} (h : Throughout P (.map m))
    (hf : mapField? m name = some es) : Throughout P (.map es) :=
  h.get? (mapField?_eq_some.mp hf)

/-! ## Distinct keys -/

/-- A mapping has no two keys that count as one; other nodes are free. -/
def DistinctNode : Tree → Prop
  | .map entries => Table.Distinct entries
  | _ => True

theorem distinct_empty : Throughout DistinctNode (.map []) :=
  throughout_map.mpr ⟨List.Pairwise.nil, fun _ he => absurd he List.not_mem_nil⟩

theorem distinct_entries {t : Tree} (h : Throughout DistinctNode t) :
    Throughout DistinctNode (.map t.entries) := by
  cases t with
  | map es => exact h
  | scalar s => exact distinct_empty
  | seq items => exact distinct_empty

theorem distinct_mappingAt {m : Mapping} (h : Throughout DistinctNode (.map m)) (name : String) :
    Throughout DistinctNode (.map (mappingAt m name)) := by
  unfold mappingAt
  cases hf : Tree.mapField? m name with
  | none => exact distinct_empty
  | some es => exact h.mapField? hf

/-! ## Parts at any depth -/

/-- `u` is part of a tree, at any depth. -/
inductive Within (u : Tree) : Tree → Prop where
  | here : Within u u
  | under {entries : Mapping} {key : Scalar} {t : Tree} :
      (key, t) ∈ entries → Within u t → Within u (.map entries)
  | among {items : List Tree} {t : Tree} : t ∈ items → Within u t → Within u (.seq items)

theorem within_of_reaches {t u : Tree} (h : Reaches u t) : Within u t := by
  induction h with
  | here => exact .here
  | under he _ ih => exact .under he ih

theorem Within.trans {t u v : Tree} (h : Within u t) (k : Within v u) : Within v t := by
  induction h with
  | here => exact k
  | under he _ ih => exact .under he ih
  | among ht _ ih => exact .among ht ih

mutual

/-- Checks every part of the tree. -/
def allWithin (p : Tree → Bool) : Tree → Bool
  | .scalar s => p (.scalar s)
  | .seq items => p (.seq items) && allWithinItems p items
  | .map entries => p (.map entries) && allWithinEntries p entries

def allWithinItems (p : Tree → Bool) : List Tree → Bool
  | [] => true
  | t :: r => allWithin p t && allWithinItems p r

def allWithinEntries (p : Tree → Bool) : List (Scalar × Tree) → Bool
  | [] => true
  | (_, t) :: r => allWithin p t && allWithinEntries p r

end

mutual

theorem allWithin_iff {p : Tree → Bool} : ∀ t : Tree,
    allWithin p t = true ↔ ∀ u, Within u t → p u = true
  | .scalar s => by
    rw [allWithin]
    refine ⟨fun h u hu => ?_, fun h => h _ .here⟩
    cases hu with
    | here => exact h
  | .seq items => by
    rw [allWithin, Bool.and_eq_true, allWithinItems_iff items]
    refine ⟨fun h u hu => ?_, fun h => ⟨h _ .here, fun t ht u hu => h u (.among ht hu)⟩⟩
    cases hu with
    | here => exact h.1
    | among ht hu => exact h.2 _ ht u hu
  | .map entries => by
    rw [allWithin, Bool.and_eq_true, allWithinEntries_iff entries]
    refine ⟨fun h u hu => ?_, fun h => ⟨h _ .here, fun e he u hu => h u (.under he hu)⟩⟩
    cases hu with
    | here => exact h.1
    | under he hu => exact h.2 _ he u hu

theorem allWithinItems_iff {p : Tree → Bool} : ∀ items : List Tree,
    allWithinItems p items = true ↔ ∀ t ∈ items, ∀ u, Within u t → p u = true
  | [] => by simp [allWithinItems]
  | t :: r => by
    rw [allWithinItems, Bool.and_eq_true, List.forall_mem_cons, allWithin_iff t,
      allWithinItems_iff r]

theorem allWithinEntries_iff {p : Tree → Bool} : ∀ entries : List (Scalar × Tree),
    allWithinEntries p entries = true ↔ ∀ e ∈ entries, ∀ u, Within u e.2 → p u = true
  | [] => by simp [allWithinEntries]
  | (_, t) :: r => by
    rw [allWithinEntries, Bool.and_eq_true, List.forall_mem_cons, allWithin_iff t,
      allWithinEntries_iff r]

end

/-! ## Distinct keys at any depth -/

/-- No mapping in the tree has two keys that count as one. -/
def KeysDistinct (t : Tree) : Prop := ∀ u, Within u t → DistinctNode u

theorem keysDistinct_scalar (s : Scalar) : KeysDistinct (.scalar s) := fun u hu => by
  cases hu with
  | here => exact trivial

theorem keysDistinct_seq {items : List Tree} :
    KeysDistinct (.seq items) ↔ ∀ t ∈ items, KeysDistinct t := by
  refine ⟨fun h t ht u hu => h u (.among ht hu), fun h u hu => ?_⟩
  cases hu with
  | here => exact trivial
  | among ht hu => exact h _ ht u hu

theorem keysDistinct_map {entries : Mapping} :
    KeysDistinct (.map entries) ↔
      Table.Distinct entries ∧ ∀ e ∈ entries, KeysDistinct e.2 := by
  refine ⟨fun h => ⟨h _ .here, fun e he u hu => h u (.under he hu)⟩, fun h u hu => ?_⟩
  cases hu with
  | here => exact h.1
  | under he hu => exact h.2 _ he u hu

instance : DecidablePred DistinctNode
  | .map entries =>
    inferInstanceAs (Decidable (entries.Pairwise fun a b => (a.1 == b.1) = false))
  | .scalar _ => .isTrue trivial
  | .seq _ => .isTrue trivial

instance : DecidablePred KeysDistinct := fun t =>
  decidable_of_iff (allWithin (fun u => decide (DistinctNode u)) t = true)
    ((allWithin_iff t).trans (by simp only [KeysDistinct, decide_eq_true_eq]))

theorem KeysDistinct.throughout {t : Tree} (h : KeysDistinct t) : Throughout DistinctNode t :=
  fun u hu => h u (within_of_reaches hu)

theorem KeysDistinct.mapField? {m es : Mapping} {name : String} (h : KeysDistinct (.map m))
    (hf : mapField? m name = some es) : KeysDistinct (.map es) := by
  obtain ⟨key, hm, -⟩ := Table.mem_of_get? (mapField?_eq_some.mp hf)
  exact (keysDistinct_map.mp h).2 _ hm

theorem KeysDistinct.mappingAt {m : Mapping} (h : KeysDistinct (.map m)) (name : String) :
    KeysDistinct (.map (mappingAt m name)) := by
  unfold Tree.mappingAt
  cases hf : Tree.mapField? m name with
  | none => exact keysDistinct_map.mpr ⟨List.Pairwise.nil, fun _ he => absurd he List.not_mem_nil⟩
  | some es => exact h.mapField? hf

theorem KeysDistinct.asList {t : Tree} (h : KeysDistinct t) {v : Tree} (hv : v ∈ t.asList) :
    KeysDistinct v := by
  unfold Tree.asList at hv
  split at hv
  · cases hv
  · exact keysDistinct_seq.mp h v hv
  · obtain rfl := List.mem_singleton.mp hv
    exact h

end Compliance.Tree
