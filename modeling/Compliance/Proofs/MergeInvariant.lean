import Compliance.Merge
import Compliance.Proofs.Reach

/-! # What merging keeps

A merge builds its result from the base, from the override and from unions of their lists. So a
property of single nodes holds throughout the result when it holds throughout the base and each way
to make a node yields it.

* `Merge.Keeps mode Given Kept`: each way to make a node, from nodes of the override in `Given`,
  yields a node in `Kept`.
* `mergeValue_keeps`, `mergeEntries_keeps`, `deepMerge_keeps`: then a merge keeps `Kept`.
* `layEntries`: a merge lays the entries of the override, each over what is there.
* `get?_layEntries`, `get?_deepMerge`: what that makes of a single key.
-/

namespace Compliance

namespace Merge

/-- The ways in which merging makes a node. -/
structure Keeps (mode : Mode) (Given Kept : Tree → Prop) : Prop where
  scalar : ∀ s, Given (.scalar s) → mode.knockout.removes (.scalar s) = false → Kept (.scalar s)
  replaced : ∀ items, mode.union = false → Given (.seq items) →
    mode.knockout.removes (.seq items) = false → Kept (.seq items)
  united : ∀ existing items, mode.union = true → (existing ≠ [] → Kept (.seq existing)) →
    Given (.seq items) → Kept (.seq (unionItems mode.knockout existing items))
  empty : Kept (.map [])
  insert : ∀ (m entries : Mapping) key t u, Kept (.map m) → Given (.map entries) →
    (key, t) ∈ entries → Kept (.map (m.insert key u))
  erase : ∀ (m : Mapping) key, Kept (.map m) → Kept (.map (m.erase key))

variable {mode : Mode} {Given Kept : Tree → Prop}

/-- What stands under a key before a merge is nothing, or kept. -/
def KeptOption (Kept : Tree → Prop) (current : Option Tree) : Prop :=
  ∀ t, current = some t → Tree.Throughout Kept t

theorem existingEntries_keeps (I : Keeps mode Given Kept) {current : Option Tree}
    (h : ∀ es, current = some (.map es) → Tree.Throughout Kept (.map es)) :
    Tree.Throughout Kept (.map (existingEntries current)) := by
  unfold existingEntries
  split
  · exact h _ rfl
  · exact Tree.throughout_map.mpr ⟨I.empty, fun _ he => absurd he List.not_mem_nil⟩

theorem existingItems_keeps {current : Option Tree} (h : KeptOption Kept current)
    (hne : existingItems current ≠ []) : Kept (.seq (existingItems current)) := by
  unfold existingItems at hne ⊢
  split at hne
  · exact (h _ rfl).here
  · exact absurd rfl hne

theorem store_keeps (I : Keeps mode Given Kept) {m entries : Mapping} {key : Scalar} {t : Tree}
    {merged : Option Tree} (hm : Tree.Throughout Kept (.map m)) (hg : Given (.map entries))
    (hk : (key, t) ∈ entries) (hv : KeptOption Kept merged) :
    Tree.Throughout Kept (.map (store m key merged)) := by
  obtain ⟨hnode, hbelow⟩ := Tree.throughout_map.mp hm
  cases merged with
  | none =>
    exact Tree.throughout_map.mpr
      ⟨I.erase m key hnode, fun e he => hbelow e (Table.mem_erase.mp he).1⟩
  | some u =>
    refine Tree.throughout_map.mpr ⟨I.insert m entries key t u hnode hg hk, fun e he => ?_⟩
    rcases Table.mem_insert he with hold | ⟨hnew, -⟩
    · exact hbelow e hold
    · exact hnew ▸ hv u rfl

mutual

/-- **A merged value is kept** where the base is kept and the override is as required. -/
theorem mergeValue_keeps (I : Keeps mode Given Kept) : ∀ (value : Tree) (current : Option Tree),
    Tree.Throughout Given value → KeptOption Kept current →
    KeptOption Kept (mergeValue mode current value)
  | .scalar s, current, hv, hc => by
    intro t ht
    rw [mergeValue] at ht
    split at ht
    · cases ht
    · rename_i hr
      have hs : Tree.Throughout Kept (.scalar s) :=
        Tree.throughout_scalar.mpr (I.scalar s hv.here (by simpa using hr))
      split at ht
      · -- a null leaves what is there, and stands for itself where nothing is
        obtain rfl := Option.some.inj ht
        cases current with
        | none => exact hs
        | some u => exact hc u rfl
      · obtain rfl := Option.some.inj ht
        exact hs
  | .seq items, current, hv, hc => by
    intro t ht
    rw [mergeValue] at ht
    split at ht
    · cases ht
    · rename_i hr
      split at ht
      · rename_i hu
        obtain rfl := Option.some.inj ht
        exact Tree.throughout_seq.mpr
          (I.united _ items hu (existingItems_keeps hc) hv.here)
      · rename_i hu
        obtain rfl := Option.some.inj ht
        exact Tree.throughout_seq.mpr
          (I.replaced items (by simpa using hu) hv.here (by simpa using hr))
  | .map entries, current, hv, hc => by
    intro t ht
    rw [mergeValue] at ht
    split at ht
    · cases ht
    · obtain rfl := Option.some.inj ht
      obtain ⟨hnode, hbelow⟩ := Tree.throughout_map.mp hv
      exact mergeEntries_keeps I entries _ hnode (fun e he => he) hbelow
        (existingEntries_keeps I fun es hes => hc _ hes)

theorem mergeEntries_keeps (I : Keeps mode Given Kept) {whole : Mapping} :
    ∀ (entries : List (Scalar × Tree)) (base : Mapping), Given (.map whole) →
    (∀ e ∈ entries, e ∈ whole) → (∀ e ∈ entries, Tree.Throughout Given e.2) →
    Tree.Throughout Kept (.map base) → Tree.Throughout Kept (.map (mergeEntries mode base entries))
  | [], _, _, _, _, hb => by rwa [mergeEntries]
  | (key, value) :: r, base, hg, hw, hv, hb => by
    rw [mergeEntries]
    have hcurrent : KeptOption Kept (base.get? key) := fun t ht => hb.get? ht
    have hmerged := mergeValue_keeps I value (base.get? key) (hv _ List.mem_cons_self) hcurrent
    exact mergeEntries_keeps I r _ hg (fun e he => hw e (List.mem_cons_of_mem _ he))
      (fun e he => hv e (List.mem_cons_of_mem _ he))
      (store_keeps I hb hg (hw _ List.mem_cons_self) hmerged)

end

/-- **A deep merge keeps** what each way to make a node yields. -/
theorem deepMerge_keeps (I : Keeps mode Given Kept) {base override : Mapping}
    (hb : Tree.Throughout Kept (.map base)) (ho : Tree.Throughout Given (.map override)) :
    Tree.Throughout Kept (.map (deepMerge mode base override)) := by
  obtain ⟨hnode, hbelow⟩ := Tree.throughout_map.mp ho
  exact mergeEntries_keeps I override base hnode (fun _ he => he) hbelow hb

end Merge

/-! ## One key -/

theorem get?_store (m : Mapping) (key other : Scalar) (merged : Option Tree) :
    Table.get? (Merge.store m key merged) other =
      if key == other then merged else Table.get? m other := by
  cases merged with
  | none => exact Table.get?_erase m key other
  | some t => exact Table.get?_insert m key other t

/-- Lays entries over a mapping one after the other: `f` makes the value of a key from what is there
and the value of the entry. -/
def layEntries (f : Option Tree → Tree → Option Tree) (base : Mapping)
    (entries : List (Scalar × Tree)) : Mapping :=
  entries.foldl (fun m e => Merge.store m e.1 (f (Table.get? m e.1) e.2)) base

theorem deepMerge_eq_layEntries (mode : Merge.Mode) (base override : Mapping) :
    deepMerge mode base override = layEntries (mergeValue mode) base override := by
  unfold deepMerge
  induction override generalizing base with
  | nil => rw [mergeEntries]; rfl
  | cons e r ih =>
    rw [mergeEntries, ih]
    rfl

/-- **One key after entries of distinct keys**: the value of its entry over what is there. -/
theorem get?_layEntries {f : Option Tree → Tree → Option Tree} {entries : Mapping}
    (hd : Table.Distinct entries) (base : Mapping) (key : Scalar) :
    Table.get? (layEntries f base entries) key =
      match Table.get? entries key with
      | none => Table.get? base key
      | some value => f (Table.get? base key) value := by
  induction entries generalizing base with
  | nil => rfl
  | cons e r ih =>
    obtain ⟨k, value⟩ := e
    obtain ⟨hhead, htail⟩ := List.pairwise_cons.mp hd
    have hstep : layEntries f base ((k, value) :: r) =
        layEntries f (Merge.store base k (f (Table.get? base k) value)) r := rfl
    rw [hstep, ih htail, get?_store, Table.get?_cons]
    by_cases hk : (k == key) = true
    · -- no later key counts as this one
      rw [Table.get?_eq_none_of_beq hhead hk, if_pos hk, if_pos hk, Table.get?_congr hk]
    · rw [if_neg hk, if_neg hk]

/-- **One key after a merge**: the value of the override is merged over what is there. -/
theorem get?_deepMerge {mode : Merge.Mode} {override : Mapping} (hd : Table.Distinct override)
    (base : Mapping) (key : Scalar) :
    Table.get? (deepMerge mode base override) key =
      match Table.get? override key with
      | none => Table.get? base key
      | some value => mergeValue mode (Table.get? base key) value := by
  rw [deepMerge_eq_layEntries, get?_layEntries hd]

end Compliance
