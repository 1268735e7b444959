import Compliance.Proofs.TableFacts
import Compliance.Proofs.UnionFacts

/-! # Twins fall into classes

A list without twins has one item of every class of the list that it comes from. So it does not
matter how often, or on what part of a list, twins are left out.

* `Tree.alike_trans`, `Tree.twins_trans`: what counts as the same as the same counts as the same.
* `exists_twin_unique`: leaving out twins leaves every class its first item.
* `unique_append_unique`: twins left out early are the same as twins left out at last.
* `mem_unique_text`: a text has no twin but itself.
* `Merge.mem_unionItems_text`, `Merge.exists_twin_unionItems`: what a union with a marker holds.
-/

namespace Compliance

namespace Tree

theorem alikeEntries_iff {es fs : List (Scalar × Tree)} :
    alikeEntries es fs = true ↔
      ∀ e ∈ es, ∃ t, Table.get? fs e.1 = some t ∧ alike e.2 t = true := by
  induction es with
  | nil => simp [alikeEntries]
  | cons e r ih =>
    obtain ⟨key, value⟩ := e
    rw [alikeEntries, Bool.and_eq_true, ih, List.forall_mem_cons]
    refine and_congr_left fun _ => ?_
    cases Table.get? fs key <;> simp

mutual

/-- **What counts as the same as the same counts as the same.** -/
theorem alike_trans : ∀ {a b c : Tree}, alike a b = true → alike b c = true → alike a c = true
  | .scalar s, b, c, h, k => by
    cases b with
    | scalar t =>
      cases c with
      | scalar u =>
        rw [alike] at h k ⊢
        exact BEq.trans h k
      | seq _ | map _ => simp [alike] at k
    | seq _ | map _ => simp [alike] at h
  | .seq xs, b, c, h, k => by
    cases b with
    | seq ys =>
      cases c with
      | seq zs =>
        rw [alike] at h k ⊢
        exact alikeItems_trans h k
      | scalar _ | map _ => simp [alike] at k
    | scalar _ | map _ => simp [alike] at h
  | .map es, b, c, h, k => by
    cases b with
    | map fs =>
      cases c with
      | map gs =>
        rw [alike, Bool.and_eq_true, beq_iff_eq] at h k ⊢
        exact ⟨h.1.trans k.1, alikeEntries_trans h.2 k.2⟩
      | scalar _ | seq _ => simp [alike] at k
    | scalar _ | seq _ => simp [alike] at h

theorem alikeItems_trans : ∀ {xs ys zs : List Tree}, alikeItems xs ys = true →
    alikeItems ys zs = true → alikeItems xs zs = true
  | [], ys, zs, h, k => by
    cases ys with
    | nil => exact k
    | cons _ _ => simp [alikeItems] at h
  | x :: xs, ys, zs, h, k => by
    cases ys with
    | nil => simp [alikeItems] at h
    | cons y ys =>
      cases zs with
      | nil => simp [alikeItems] at k
      | cons z zs =>
        rw [alikeItems, Bool.and_eq_true] at h k ⊢
        exact ⟨alike_trans h.1 k.1, alikeItems_trans h.2 k.2⟩

theorem alikeEntries_trans : ∀ {es fs gs : List (Scalar × Tree)}, alikeEntries es fs = true →
    alikeEntries fs gs = true → alikeEntries es gs = true
  | [], _, _, _, _ => by rw [alikeEntries]
  | (key, value) :: es, fs, gs, h, k => by
    rw [alikeEntries, Bool.and_eq_true] at h ⊢
    refine ⟨?_, alikeEntries_trans h.2 k⟩
    cases hfs : Table.get? fs key with
    | none => simp [hfs] at h
    | some t =>
      -- the partner of the entry has a partner of its own, under a key that counts as the same
      obtain ⟨key', hin, hkey⟩ := Table.mem_of_get? hfs
      obtain ⟨u, hgs, htu⟩ := alikeEntries_iff.mp k _ hin
      rw [Table.get?_congr hkey] at hgs
      rw [hgs]
      have hvt : alike value t = true := by simpa [hfs] using h.1
      exact alike_trans hvt htu

end

theorem twins_trans {a b c : Tree} (h : twins a b = true) (k : twins b c = true) :
    twins a c = true := by
  simp only [twins, equals, Bool.and_eq_true, decide_eq_true_eq] at h k ⊢
  exact ⟨h.1.trans k.1, alike_trans h.2.1 k.2.1, h.2.2⟩

theorem twins_text {t : Tree} {s : String} : twins t (.str s) = true ↔ t = .str s := by
  rw [twins, Bool.and_eq_true, equals_str, decide_eq_true_eq]
  exact and_iff_right_of_imp fun h => h ▸ rfl

theorem ne_text_of_twins {t u : Tree} (h : twins u t = true) (ht : ∀ s, t ≠ .str s) (s : String) :
    u ≠ .str s := by
  rintro rfl
  simp only [twins, equals, Bool.and_eq_true, decide_eq_true_eq] at h
  cases t with
  | scalar r => cases r with
    | str r => exact ht r rfl
    | _ => exact absurd h.1 (by simp [dataType, Scalar.dataType])
  | seq _ | map _ => exact absurd h.1 (by simp [dataType, Scalar.dataType])

end Tree

open Compliance.Tree (twins twins_trans twins_text ne_text_of_twins)

/-! ## Lists without twins -/

theorem mem_foldl_addUnique_of_mem {u : Tree} : ∀ (items : List Tree) {kept : List Tree},
    u ∈ kept → u ∈ items.foldl addUnique kept
  | [], _, h => h
  | t :: items, kept, h => by
    refine mem_foldl_addUnique_of_mem items ?_
    unfold addUnique
    split
    · exact h
    · exact List.mem_append_left _ h

theorem kept_or_twin {t : Tree} : ∀ (items : List Tree) {kept : List Tree}, t ∈ items →
    t ∈ items.foldl addUnique kept ∨ ∃ u ∈ items.foldl addUnique kept, twins u t = true
  | v :: items, kept, h => by
    rcases List.mem_cons.mp h with rfl | hr
    · by_cases hany : kept.any (twins · t) = true
      · obtain ⟨u, hu, htwin⟩ := List.any_eq_true.mp hany
        exact .inr ⟨u, mem_foldl_addUnique_of_mem (t :: items) hu, htwin⟩
      · refine .inl (mem_foldl_addUnique_of_mem items ?_)
        rw [addUnique, if_neg hany]
        exact List.mem_append_right _ List.mem_cons_self
    · exact kept_or_twin items hr

/-- **Leaving out twins leaves every class an item.** -/
theorem exists_twin_unique {items : List Tree} {t : Tree} :
    (∃ u ∈ unique items, twins u t = true) ↔ ∃ u ∈ items, twins u t = true := by
  refine ⟨fun ⟨u, hu, h⟩ => ⟨u, mem_unique hu, h⟩, fun ⟨u, hu, h⟩ => ?_⟩
  have hkept : u ∈ unique items ∨ ∃ v ∈ unique items, twins v u = true := kept_or_twin items hu
  rcases hkept with hin | ⟨v, hv, hvu⟩
  · exact ⟨u, hin, h⟩
  · exact ⟨v, hv, twins_trans hvu h⟩

theorem mem_unique_text {items : List Tree} {s : String} :
    .str s ∈ unique items ↔ .str s ∈ items := by
  have h : (∃ u ∈ unique items, twins u (.str s) = true) ↔ ∃ u ∈ items, twins u (.str s) = true :=
    exists_twin_unique
  simpa only [twins_text, exists_eq_right] using h

/-- **Twins left out early are the same as twins left out at last.** -/
theorem unique_append_unique (front rest : List Tree) :
    unique (unique front ++ rest) = unique (front ++ rest) := by
  have hfront : (unique front).foldl addUnique [] = unique front :=
    foldl_addUnique_of_pairwise (pairwise_unique front)
  rw [unique_eq, List.foldl_append, hfront, unique_eq front, unique_eq (front ++ rest),
    List.foldl_append]

theorem unique_of_pairwise {items : List Tree}
    (h : items.Pairwise fun a b => twins a b = false) : unique items = items :=
  foldl_addUnique_of_pairwise h

/-! ## Unions with a marker -/

theorem Knockout.struck?_marker {lead x : String} {t : Tree} :
    (Knockout.marker lead).struck? t = some x ↔ t = .str (lead ++ x) := by
  have htext : ∀ s, Text.strip? lead s = some x ↔ s = lead ++ x := fun s => by
    rw [Text.strip?, Option.map_eq_some_iff]
    constructor
    · rintro ⟨rest, hrest, rfl⟩
      rw [← String.toList_inj, stripList?_eq_some.mp hrest, String.toList_append,
        String.toList_ofList]
    · rintro rfl
      exact ⟨x.toList, stripList?_eq_some.mpr String.toList_append, String.ofList_toList⟩
  unfold Knockout.struck?
  split
  · rename_i p s hp
    obtain rfl := Knockout.marker.inj hp
    rw [htext s]
    simp
  · rename_i hother
    simp only [reduceCtorEq, false_iff]
    exact fun ht => hother lead _ rfl ht

namespace Merge

variable {lead x : String} {existing items : List Tree}

/-- The item is not among the texts that are taken back. -/
def spared (struck : List String) : Tree → Bool
  | .str s => !struck.contains s
  | _ => true

theorem spared_iff {struck : List String} {t : Tree} :
    spared struck t = true ↔ ∀ s ∈ struck, t ≠ .str s := by
  unfold spared
  split
  · simp only [List.contains_eq_mem, Bool.not_eq_true', decide_eq_false_iff_not, ne_eq,
      Tree.scalar.injEq, Scalar.str.injEq]
    exact ⟨fun h s hs heq => h (heq ▸ hs), fun h hin => h _ hin rfl⟩
  · rename_i hother
    simp only [true_iff]
    exact fun s _ => hother s

theorem unionItems_eq (k : Knockout) (existing items : List Tree) :
    unionItems k existing items =
      unique (existing.filter (spared (items.filterMap k.struck?)) ++
        items.filter fun t => (k.struck? t).isNone) := rfl

/-- What is there stays in a union unless the list takes it back. -/
theorem mem_spared {t : Tree} :
    t ∈ existing.filter (spared (items.filterMap (Knockout.marker lead).struck?)) ↔
      t ∈ existing ∧ ∀ s, t = .str s → .str (lead ++ s) ∉ items := by
  rw [List.mem_filter, spared_iff]
  refine and_congr_right fun _ => ?_
  simp only [List.mem_filterMap, Knockout.struck?_marker, forall_exists_index, and_imp]
  exact ⟨fun h s ht hin => h s _ hin rfl ht, fun h s u hu hmark ht => h s ht (hmark ▸ hu)⟩

/-- **A text that is not marked is in a union** if it is added, or is there and not taken back. -/
theorem mem_unionItems_text (hx : ¬ lead.toList <+: x.toList) :
    .str x ∈ unionItems (.marker lead) existing items ↔
      .str x ∈ items ∨ .str x ∈ existing ∧ .str (lead ++ x) ∉ items := by
  have hfree : (Knockout.marker lead).struck? (.str x) = none := by
    cases h : (Knockout.marker lead).struck? (.str x) with
    | none => rfl
    | some y =>
      have heq := Knockout.struck?_marker.mp h
      refine absurd ?_ hx
      simp only [Tree.scalar.injEq, Scalar.str.injEq] at heq
      rw [heq, String.toList_append]
      exact List.prefix_append _ _
  rw [unionItems_eq, mem_unique_text, List.mem_append, mem_spared, List.mem_filter, hfree]
  simp only [Tree.scalar.injEq, Scalar.str.injEq, forall_eq', Option.isNone_none, and_true]
  exact or_comm

/-- **Anything but texts has a twin in a union** if it has one on either side. -/
theorem exists_twin_unionItems {t : Tree} (ht : ∀ s, t ≠ .str s) :
    (∃ u ∈ unionItems (.marker lead) existing items, twins u t = true) ↔
      (∃ u ∈ existing, twins u t = true) ∨ ∃ u ∈ items, twins u t = true := by
  rw [unionItems_eq, exists_twin_unique]
  simp only [List.mem_append, or_and_right, exists_or]
  refine or_congr (exists_congr fun u => ?_) (exists_congr fun u => ?_)
  · refine and_congr_left fun htwin => ?_
    rw [mem_spared]
    exact and_iff_left fun s hs => absurd hs (ne_text_of_twins htwin ht s)
  · refine and_congr_left fun htwin => ?_
    rw [List.mem_filter]
    refine and_iff_left ?_
    cases h : (Knockout.marker lead).struck? u with
    | none => rfl
    | some y => exact absurd (Knockout.struck?_marker.mp h) (ne_text_of_twins htwin ht _)

theorem unionItems_absent (front back : List Tree) (hx : .str x ∉ existing) :
    unionItems (.marker lead) existing (front ++ .str (lead ++ x) :: back) =
      unionItems (.marker lead) existing (front ++ back) := by
  have hmark : (Knockout.marker lead).struck? (.str (lead ++ x)) = some x :=
    Knockout.struck?_marker.mpr rfl
  rw [unionItems_eq, unionItems_eq]
  congr 2
  · refine List.filter_congr fun t ht => ?_
    rw [Bool.eq_iff_iff, spared_iff, spared_iff]
    have hne : t ≠ .str x := fun h => hx (h ▸ ht)
    simp only [List.filterMap_append, List.filterMap_cons, hmark, List.mem_append, List.mem_cons]
    exact ⟨fun h s hs => h s (hs.imp_right .inr),
      fun h s hs => hs.elim (fun hf => h s (.inl hf)) fun hr =>
        hr.elim (fun heq => heq ▸ hne) fun hb => h s (.inr hb)⟩
  · simp [List.filter_append, hmark]

theorem unionItems_inert (hapart : existing.Pairwise fun a b => twins a b = false)
    (h : ∀ t ∈ items, ∃ x, t = .str (lead ++ x) ∧ .str x ∉ existing) :
    unionItems (.marker lead) existing items = existing := by
  induction items with
  | nil =>
    have hall : existing.filter (spared []) = existing :=
      List.filter_eq_self.mpr fun t _ => spared_iff.mpr fun s hs => absurd hs List.not_mem_nil
    rw [unionItems_eq, List.filterMap_nil, List.filter_nil, List.append_nil, hall]
    exact unique_of_pairwise hapart
  | cons t r ih =>
    obtain ⟨x, rfl, hx⟩ := h t List.mem_cons_self
    have hrest := ih fun u hu => h u (List.mem_cons_of_mem _ hu)
    exact (unionItems_absent [] r hx).trans hrest

end Merge

end Compliance
