import Compliance.Merge

/-! # Facts about list union and knockout

* `pairwise_unique`, `mem_unique`: no two items of `unique` are twins, and none is new.
* `unique_append_self`: a list without twins is not changed by its own items.
* `Knockout.ofPrefix`: the marker that a text, or its absence, gives; an empty text gives none.
* `removes_marker`: exactly the marker itself removes a key.
* `unionItems_unmarked`: a union holds no text that starts with the marker.
-/

namespace Compliance

/-! ## Lists without twins -/

/-- One more item of `unique`. -/
def addUnique (kept : List Tree) (t : Tree) : List Tree :=
  if kept.any (Tree.twins · t) then kept else kept ++ [t]

theorem unique_eq (items : List Tree) : unique items = items.foldl addUnique [] := rfl

theorem mem_addUnique {kept : List Tree} {t u : Tree} (h : u ∈ addUnique kept t) :
    u ∈ kept ∨ u = t := by
  unfold addUnique at h
  split at h
  · exact .inl h
  · exact (List.mem_append.mp h).imp id List.mem_singleton.mp

theorem pairwise_addUnique {kept : List Tree}
    (h : kept.Pairwise fun a b => Tree.twins a b = false) (t : Tree) :
    (addUnique kept t).Pairwise fun a b => Tree.twins a b = false := by
  unfold addUnique
  split
  · exact h
  · rename_i hany
    refine List.pairwise_append.mpr ⟨h, List.pairwise_singleton _ _, fun a ha b hb => ?_⟩
    obtain rfl := List.mem_singleton.mp hb
    simp only [List.any_eq_true, not_exists, not_and] at hany
    simpa using hany a ha

theorem mem_foldl_addUnique {u : Tree} : ∀ {items kept : List Tree},
    u ∈ items.foldl addUnique kept → u ∈ kept ∨ u ∈ items
  | [], _, h => .inl h
  | t :: items, kept, h => by
    rw [List.foldl_cons] at h
    rcases mem_foldl_addUnique h with hk | hi
    · rcases mem_addUnique hk with hk | rfl
      · exact .inl hk
      · exact .inr List.mem_cons_self
    · exact .inr (List.mem_cons_of_mem _ hi)

theorem pairwise_foldl_addUnique : ∀ {items kept : List Tree},
    (kept.Pairwise fun a b => Tree.twins a b = false) →
    (items.foldl addUnique kept).Pairwise fun a b => Tree.twins a b = false
  | [], _, h => h
  | t :: items, _, h => by
    rw [List.foldl_cons]
    exact pairwise_foldl_addUnique (pairwise_addUnique h t)

theorem mem_unique {u : Tree} {items : List Tree} (h : u ∈ unique items) : u ∈ items := by
  rw [unique_eq] at h
  exact (mem_foldl_addUnique h).resolve_left List.not_mem_nil

/-- **No two items are twins.** -/
theorem pairwise_unique (items : List Tree) :
    (unique items).Pairwise fun a b => Tree.twins a b = false :=
  pairwise_foldl_addUnique List.Pairwise.nil

theorem foldl_addUnique_of_pairwise : ∀ {items kept : List Tree},
    ((kept ++ items).Pairwise fun a b => Tree.twins a b = false) →
    items.foldl addUnique kept = kept ++ items
  | [], kept, _ => (List.append_nil kept).symm
  | t :: items, kept, h => by
    have hnew : kept.any (Tree.twins · t) = false := by
      refine List.any_eq_false.mpr fun u hu => Bool.eq_false_iff.mp ?_
      exact (List.pairwise_append.mp h).2.2 u hu t List.mem_cons_self
    have hadd : addUnique kept t = kept ++ [t] := if_neg (Bool.eq_false_iff.mp hnew)
    have happend : kept ++ t :: items = (kept ++ [t]) ++ items := by
      rw [List.append_assoc, List.singleton_append]
    rw [List.foldl_cons, hadd, happend]
    exact foldl_addUnique_of_pairwise (happend ▸ h)

theorem foldl_addUnique_of_twins {kept : List Tree} : ∀ {items : List Tree},
    (∀ t ∈ items, ∃ u ∈ kept, Tree.twins u t = true) → items.foldl addUnique kept = kept
  | [], _ => rfl
  | t :: items, h => by
    have hold : addUnique kept t = kept := if_pos (List.any_eq_true.mpr (h t List.mem_cons_self))
    rw [List.foldl_cons, hold]
    exact foldl_addUnique_of_twins fun u hu => h u (List.mem_cons_of_mem _ hu)

/-- **A list without twins behind itself adds nothing**, if its items are twins of themselves. -/
theorem unique_append_self {items : List Tree} (hself : ∀ t ∈ items, Tree.twins t t = true)
    (hapart : items.Pairwise fun a b => Tree.twins a b = false) :
    unique (items ++ items) = items := by
  have hfirst : items.foldl addUnique [] = items := foldl_addUnique_of_pairwise hapart
  rw [unique_eq, List.foldl_append, hfirst]
  exact foldl_addUnique_of_twins fun t ht => ⟨t, ht, hself t ht⟩

/-! ## Texts -/

theorem stripList?_eq_some {α : Type} [DecidableEq α] {lead cs rest : List α} :
    Text.stripList? lead cs = some rest ↔ cs = lead ++ rest := by
  induction lead generalizing cs with
  | nil => simp [Text.stripList?]
  | cons p lead ih =>
    cases cs with
    | nil => simp [Text.stripList?]
    | cons c cs =>
      rw [Text.stripList?]
      split
      · rename_i hpc
        simp [ih, hpc]
      · rename_i hpc
        simp [Ne.symm hpc]

theorem strip?_isSome {lead s : String} :
    (Text.strip? lead s).isSome = true ↔ lead.toList <+: s.toList := by
  unfold Text.strip?
  rw [Option.isSome_map, Option.isSome_iff_exists]
  refine exists_congr fun rest => ?_
  rw [stripList?_eq_some, eq_comm]

theorem beq_str {s : Scalar} {p : String} : (s == .str p) = true ↔ s = .str p := by
  rw [Scalar.beq_iff]
  refine ⟨fun h => ?_, fun h => h ▸ rfl⟩
  cases s with
  | str t =>
    injection h with ht
    rw [ht]
  | float x =>
    simp only [Scalar.ident] at h
    split at h <;> cases h
  | datetime t =>
    simp only [Scalar.ident] at h
    split at h <;> cases h
  | foreign f => cases f <;> cases h
  | _ => cases h

theorem equals_str {t : Tree} {p : String} : t.equals (.str p) = true ↔ t = .str p := by
  refine ⟨fun h => ?_, fun h => ?_⟩
  · simp only [Tree.equals, Bool.and_eq_true] at h
    cases t with
    | scalar s =>
      have hs : (s == .str p) = true := by simpa [Tree.alike] using h.1
      rw [beq_str.mp hs]
    | seq items => simp [Tree.alike] at h
    | map entries => simp [Tree.alike] at h
  · rw [h]
    simp [Tree.equals, Tree.alike, Tree.isNaN, Scalar.isNaN]

/-! ## Markers -/

namespace Knockout

/-- The marker that a text gives; none without a text. -/
def ofPrefix (lead : Option String) : Knockout := ofTree (lead.elim .null .str)

theorem ofPrefix_none : ofPrefix none = .off := rfl

theorem ofPrefix_some (p : String) :
    ofPrefix (some p) = if p = "" then .off else .marker p := by
  unfold ofPrefix ofTree
  simp only [Option.elim, Tree.hasContent, Scalar.hasContent]
  by_cases h : p = ""
  · simp [h]
  · simp [h]

/-- A text never gives a marker that cannot be matched. -/
theorem ofPrefix_usable (lead : Option String) (t : Tree) : ofPrefix lead ≠ .unusable t := by
  cases lead with
  | none =>
    rw [ofPrefix_none]
    exact Knockout.noConfusion
  | some p =>
    rw [ofPrefix_some]
    split <;> exact Knockout.noConfusion

theorem removes_marker {p : String} {t : Tree} : (marker p).removes t = true ↔ t = .str p :=
  equals_str

/-- **What removes a key**: the text of the marker, if it is not empty. -/
theorem removes_ofPrefix {lead : Option String} {t : Tree} :
    (ofPrefix lead).removes t = true ↔ ∃ p, lead = some p ∧ p ≠ "" ∧ t = .str p := by
  cases lead with
  | none => simp [ofPrefix_none, removes]
  | some p =>
    rw [ofPrefix_some]
    by_cases h : p = ""
    · simp [h, removes]
    · simp [h, removes_marker]

end Knockout

/-! ## Unions -/

namespace Merge

theorem mem_unionItems {k : Knockout} {existing items : List Tree} {t : Tree}
    (h : t ∈ unionItems k existing items) :
    t ∈ existing ∨ t ∈ items ∧ k.struck? t = none := by
  rcases List.mem_append.mp (mem_unique h) with hk | hi
  · exact .inl (List.mem_filter.mp hk).1
  · obtain ⟨hm, hs⟩ := List.mem_filter.mp hi
    exact .inr ⟨hm, Option.isNone_iff_eq_none.mp hs⟩

theorem pairwise_unionItems (k : Knockout) (existing items : List Tree) :
    (unionItems k existing items).Pairwise fun a b => Tree.twins a b = false :=
  pairwise_unique _

/-- **No marked text gets into a union** unless it was there before. -/
theorem unionItems_unmarked {p s : String} {existing items : List Tree}
    (h : .str s ∈ unionItems (.marker p) existing items) (hm : p.toList <+: s.toList) :
    .str s ∈ existing := by
  rcases mem_unionItems h with he | ⟨-, hs⟩
  · exact he
  · have hsome := strip?_isSome.mpr hm
    simp only [Knockout.struck?] at hs
    rw [hs] at hsome
    cases hsome

end Merge

end Compliance
