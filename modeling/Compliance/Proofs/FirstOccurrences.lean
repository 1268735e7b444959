import Compliance.Proofs.SelfMerge
import Compliance.Proofs.TwinClasses

/-! # First occurrences

Twins are left out of a list by going through it once, each item being held against those that have
been kept. Because equality of values without NaN is an equivalence, this leaves the first item of
every class, and nothing else.

* `Tree.alike_symm`: what counts as the same does so both ways. For mappings this is a matter of
  counting: distinct keys that all have partners leave none of as many keys without.
* `Tree.equals_equivalence`, `Tree.twins_equivalence`: equality on comparable values.
* `firstOccurrences`: the items that no item in front of them is a twin of.
* `unique_eq_firstOccurrences`: these are the items that are kept, by induction at the end.
* `unique_classes`: a list without its later twins.
-/

namespace Compliance

namespace Tree

/-! ## Equality is an equivalence -/

/-- A value that equality can tell apart from others: no part of it is a NaN, and the keys of its
mappings are distinct. -/
structure Comparable (t : Tree) : Prop where
  keys : KeysDistinct t
  noNaN : NaNFree t

instance : DecidablePred Comparable := fun t =>
  decidable_of_iff (KeysDistinct t ∧ NaNFree t) ⟨fun h => ⟨h.1, h.2⟩, fun h => ⟨h.keys, h.noNaN⟩⟩

theorem Comparable.isNaN {t : Tree} (h : Comparable t) : t.isNaN = false := h.noNaN t .here

/-- Of as many distinct keys none is left over: each key of the second mapping has its entry in the
first, if each key of the first has one in the second. -/
theorem contains_of_length_eq {es fs : Mapping} (hd : Table.Distinct es)
    (hlength : es.length = fs.length) (hpartner : ∀ e ∈ es, Table.contains fs e.1 = true)
    {f : Scalar × Tree} (hf : f ∈ fs) : Table.contains es f.1 = true := by
  by_contra hmissing
  have hmissing : ∀ e ∈ es, (f.1 == e.1) = false := fun e he => by
    refine Bool.eq_false_iff.mpr fun hsame => hmissing ?_
    exact Table.contains_iff.mpr ⟨e, he, BEq.symm hsame⟩
  -- without `f` the second mapping still has all keys of the first, and is shorter
  have hle : es.length ≤ (Table.erase fs f.1).length :=
    Table.length_le_of_contains hd fun e he => by
      rw [Table.contains_erase, hmissing e he, hpartner e he]
      rfl
  have hlt : (Table.erase fs f.1).length < fs.length :=
    List.length_filter_lt_length_iff_exists.mpr ⟨f, hf, by simp⟩
  omega

mutual

/-- **What counts as the same does so both ways.** -/
theorem alike_symm : ∀ {a b : Tree}, KeysDistinct a → KeysDistinct b → alike a b = true →
    alike b a = true
  | .scalar s, b, _, _, h => by
    cases b with
    | scalar t =>
      rw [alike] at h ⊢
      exact BEq.symm h
    | seq _ | map _ => simp [alike] at h
  | .seq xs, b, ha, hb, h => by
    cases b with
    | seq ys =>
      rw [alike] at h ⊢
      exact alikeItems_symm (keysDistinct_seq.mp ha) (keysDistinct_seq.mp hb) h
    | scalar _ | map _ => simp [alike] at h
  | .map es, b, ha, hb, h => by
    cases b with
    | map fs =>
      rw [alike, Bool.and_eq_true, beq_iff_eq] at h ⊢
      obtain ⟨hdes, hes⟩ := keysDistinct_map.mp ha
      obtain ⟨hdfs, hfs⟩ := keysDistinct_map.mp hb
      have hback := alikeEntries_symm es hes
      have hpartner := alikeEntries_iff.mp h.2
      refine ⟨h.1.symm, alikeEntries_iff.mpr fun f hf => ?_⟩
      have hcontains : Table.contains es f.1 = true :=
        contains_of_length_eq hdes h.1 (fun e he => by
          obtain ⟨t, ht, -⟩ := hpartner e he
          rw [Table.contains, ht]
          rfl) hf
      -- the entry of the first mapping under this key has `f` for its partner
      obtain ⟨v, hv⟩ := Option.isSome_iff_exists.mp hcontains
      obtain ⟨key, hin, hkey⟩ := Table.mem_of_get? hv
      obtain ⟨t, ht, hvt⟩ := hpartner _ hin
      rw [Table.get?_congr hkey, Table.get?_of_mem hdfs hf] at ht
      obtain rfl := Option.some.inj ht
      exact ⟨v, hv, hback _ hin (hfs f hf) hvt⟩
    | scalar _ | seq _ => simp [alike] at h

theorem alikeItems_symm : ∀ {xs ys : List Tree}, (∀ t ∈ xs, KeysDistinct t) →
    (∀ t ∈ ys, KeysDistinct t) → alikeItems xs ys = true → alikeItems ys xs = true
  | [], ys, _, _, h => by
    cases ys with
    | nil => exact h
    | cons _ _ => simp [alikeItems] at h
  | x :: xs, ys, hxs, hys, h => by
    cases ys with
    | nil => simp [alikeItems] at h
    | cons y ys =>
      obtain ⟨hx, hxs⟩ := List.forall_mem_cons.mp hxs
      obtain ⟨hy, hys⟩ := List.forall_mem_cons.mp hys
      rw [alikeItems, Bool.and_eq_true] at h ⊢
      exact ⟨alike_symm hx hy h.1, alikeItems_symm hxs hys h.2⟩

theorem alikeEntries_symm : ∀ es : List (Scalar × Tree), (∀ e ∈ es, KeysDistinct e.2) →
    ∀ e ∈ es, ∀ {t : Tree}, KeysDistinct t → alike e.2 t = true → alike t e.2 = true
  | [], _, _, he, _, _, _ => absurd he List.not_mem_nil
  | (key, value) :: es, hes, e, he, t, ht, h => by
    obtain ⟨hvalue, hes⟩ := List.forall_mem_cons.mp hes
    rcases List.mem_cons.mp he with rfl | he
    · exact alike_symm hvalue ht h
    · exact alikeEntries_symm es hes e he ht h

end

theorem equals_iff_alike {a b : Tree} (ha : a.isNaN = false) :
    equals a b = true ↔ alike a b = true := by
  simp [equals, ha]

/-- **Equality is an equivalence** on comparable values. -/
theorem equals_equivalence :
    Equivalence fun a b : {t : Tree // Comparable t} => equals a.1 b.1 = true where
  refl a := (equals_iff_alike a.2.isNaN).mpr (alike_self a.1 a.2.keys)
  symm {a b} h := (equals_iff_alike b.2.isNaN).mpr
    (alike_symm a.2.keys b.2.keys ((equals_iff_alike a.2.isNaN).mp h))
  trans {a b _} h k := (equals_iff_alike a.2.isNaN).mpr
    (alike_trans ((equals_iff_alike a.2.isNaN).mp h) ((equals_iff_alike b.2.isNaN).mp k))

theorem twins_iff {a b : Tree} :
    twins a b = true ↔ a.dataType = b.dataType ∧ equals a b = true := by
  rw [twins, Bool.and_eq_true, decide_eq_true_eq]

/-- **So is being a twin.** -/
theorem twins_equivalence :
    Equivalence fun a b : {t : Tree // Comparable t} => twins a.1 b.1 = true where
  refl a := twins_iff.mpr ⟨rfl, equals_equivalence.refl a⟩
  symm h := twins_iff.mpr ⟨(twins_iff.mp h).1.symm, equals_equivalence.symm (twins_iff.mp h).2⟩
  trans h k := twins_trans h k

end Tree

open Compliance.Tree (Comparable twins equals)

/-! ## First occurrences -/

/-- The items that no item in front of them is a twin of, in order. -/
def firstOccurrences (items : List Tree) : List Tree :=
  (items.zipIdx.filter fun e => !(items.take e.2).any (twins · e.1)).map (·.1)

theorem sublist_firstOccurrences (items : List Tree) : (firstOccurrences items).Sublist items := by
  have hfront := (List.filter_sublist (l := items.zipIdx)
    (p := fun e => !(items.take e.2).any (twins · e.1))).map (·.1)
  rwa [List.zipIdx_map_fst] at hfront

/-- One more item is a first occurrence if it has no twin in front of it. -/
theorem firstOccurrences_concat (items : List Tree) (t : Tree) :
    firstOccurrences (items ++ [t]) =
      firstOccurrences items ++ if items.any (twins · t) then [] else [t] := by
  have hfront : ∀ e ∈ items.zipIdx, (items ++ [t]).take e.2 = items.take e.2 := fun e he => by
    have hlt := (List.mem_zipIdx he).2.1
    exact List.take_append_of_le_length (by omega)
  unfold firstOccurrences
  rw [List.zipIdx_append, List.filter_append, List.map_append]
  congr 1
  · exact congrArg _ (List.filter_congr fun e he => by rw [hfront e he])
  · cases hany : items.any (twins · t) <;> simp [hany]

theorem unique_concat (items : List Tree) (t : Tree) :
    unique (items ++ [t]) = addUnique (unique items) t := by
  rw [unique_eq, List.foldl_append]
  rfl

/-- **The items that are kept are the first occurrences.** An item that is left out for a twin among
those kept has that twin in front of it; and one with a twin in front of it has one among those
kept, for what was left out there had a twin itself. -/
theorem unique_eq_firstOccurrences (items : List Tree) : unique items = firstOccurrences items := by
  induction items using List.reverseRecOn with
  | nil => rfl
  | append_singleton items t ih =>
    have hkept : (unique items).any (twins · t) = items.any (twins · t) :=
      Bool.eq_iff_iff.mpr (by simpa using exists_twin_unique)
    rw [unique_concat, firstOccurrences_concat, ← ih, addUnique, hkept]
    split
    · exact (List.append_nil _).symm
    · rfl

/-! ## Classes -/

/-- **A list without its later twins**: the first occurrence of each class of twins, in order. No
two of them are twins, every item has a twin among them, and it does not matter whether twins are
left out of a part of a list first. Being equal, and being twins, are equivalences. -/
theorem unique_classes {items : List Tree} (h : ∀ t ∈ items, Comparable t) :
    unique items = firstOccurrences items ∧
    (unique items).Sublist items ∧
    ((unique items).Pairwise fun a b => twins a b = false ∧ twins b a = false) ∧
    (∀ t ∈ items, ∃ u ∈ unique items, twins u t = true ∧ twins t u = true) ∧
    unique (unique items) = unique items ∧
    (∀ more, unique (unique items ++ more) = unique (items ++ more)) ∧
    (Equivalence fun a b : {t : Tree // Comparable t} => equals a.1 b.1 = true) ∧
    Equivalence fun a b : {t : Tree // Comparable t} => twins a.1 b.1 = true := by
  have hsymm : ∀ {a b}, a ∈ items → b ∈ items → twins a b = true → twins b a = true :=
    fun ha hb => Tree.twins_equivalence.symm (x := ⟨_, h _ ha⟩) (y := ⟨_, h _ hb⟩)
  have hfirst := unique_eq_firstOccurrences items
  have hsublist : (unique items).Sublist items := hfirst ▸ sublist_firstOccurrences items
  refine ⟨hfirst, hsublist, ?apart, ?covered, unique_of_pairwise (pairwise_unique items),
    unique_append_unique items, Tree.equals_equivalence, Tree.twins_equivalence⟩
  case apart =>
    refine (pairwise_unique items).imp_of_mem fun {a b} ha hb hab => ⟨hab, ?_⟩
    refine Bool.eq_false_iff.mpr fun hba => ?_
    rw [hsymm (hsublist.subset hb) (hsublist.subset ha) hba] at hab
    cases hab
  case covered =>
    intro t ht
    have hself : twins t t = true := Tree.twins_equivalence.refl ⟨t, h t ht⟩
    obtain ⟨u, hu, htwin⟩ := exists_twin_unique.mpr ⟨t, ht, hself⟩
    exact ⟨u, hu, htwin, hsymm (hsublist.subset hu) ht htwin⟩

/-- Noon of a day, by a clock so many hours ahead of UTC, and what that clock shows. -/
def noonAt (hours : Nat) : Tree :=
  .scalar (.datetime ⟨⟨2024, 1, 1⟩, 12 + hours, 0, 0, 0, some (3600 * hours)⟩)

/-- Values that are equal across types, in different orders, and across offsets. -/
def mixed : List Tree := [
  .int 1, .bool true, .scalar (.float (.ofRat 1)), .int 1,
  .map [(.int 1, .str "a"), (.str "b", .seq [.int 0])],
  .map [(.str "b", .seq [.bool false]), (.bool true, .str "a")],
  noonAt 0, noonAt 2]

/-- Numbers of three types are kept apart; the second mapping and second instant are left out. -/
theorem unique_classes_mixed :
    (∀ t ∈ mixed, Comparable t) ∧
    unique mixed = [.int 1, .bool true, .scalar (.float (.ofRat 1)),
      .map [(.int 1, .str "a"), (.str "b", .seq [.int 0])], noonAt 0] ∧
    unique (unique mixed ++ mixed) = unique (mixed ++ mixed) := by
  have hall : ∀ t ∈ mixed, Comparable t := by
    decide +kernel
  obtain ⟨hfirst, -, -, -, -, hmore, -⟩ := unique_classes hall
  refine ⟨hall, hfirst.trans ?_, hmore mixed⟩
  rfl

end Compliance
