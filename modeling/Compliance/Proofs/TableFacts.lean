import Compliance.Table

/-! # Facts about tables

What membership and order say about look-ups, for the proofs about merging:

* `mem_of_get?`, `contains_iff`: a look-up finds an entry of the table, if a key counts as its own.
* `get?_filterMap`, `get?_filter`: what look-ups find where values are replaced or dropped.
* `filter_map_snd`: at most one entry counts as a key.
* `mem_insert`, `mem_erase`: an operation brings in no value but the one inserted.
* `insert_of_get?`: what is there already changes nothing.
* `distinct_insert`, `distinct_erase`: the operations keep keys distinct.
* `keys_erase`: erasing keeps the order of the other keys.
* `length_le_of_contains`: a table whose keys another one has is no longer than that.
* `get?_insertAll`, `contains_insertAll`, `distinct_insertAll`: the same for a list of pairs.
-/

namespace Compliance.Table

variable {κ : Type u} {α : Type v} [BEq κ]

/-! ## Look-ups and entries -/

theorem mem_of_get? {t : Table κ α} {k : κ} {v : α} (h : t.get? k = some v) :
    ∃ k', (k', v) ∈ t ∧ (k' == k) = true := by
  induction t with
  | nil => cases h
  | cons e r ih =>
    rw [get?_cons] at h
    split at h
    · rename_i hk
      obtain rfl := Option.some.inj h
      exact ⟨e.1, List.mem_cons_self, hk⟩
    · obtain ⟨k', hm, hk⟩ := ih h
      exact ⟨k', List.mem_cons_of_mem _ hm, hk⟩

theorem contains_iff {t : Table κ α} {k : κ} :
    t.contains k = true ↔ ∃ e ∈ t, (e.1 == k) = true := by
  induction t with
  | nil => simp [contains, get?]
  | cons e r ih =>
    simp only [contains] at ih ⊢
    rw [get?_cons]
    by_cases hk : (e.1 == k) = true
    · simp [hk]
    · simp [hk, ih]

theorem get?_eq_none {t : Table κ α} {k : κ} :
    t.get? k = none ↔ ∀ e ∈ t, (e.1 == k) = false := by
  rw [← Option.not_isSome_iff_eq_none]
  change ¬ t.contains k = true ↔ _
  rw [contains_iff]
  simp

theorem get?_eq_none_of_beq [EquivBEq κ] {r : Table κ α} {k' k : κ}
    (hd : ∀ e ∈ r, (k' == e.1) = false) (hk : (k' == k) = true) : r.get? k = none := by
  refine get?_eq_none.mpr fun e he => Bool.eq_false_iff.mpr fun h => ?_
  have hke : (k' == e.1) = true := BEq.trans hk (BEq.symm h)
  rw [hd e he] at hke
  cases hke

theorem get?_of_mem [EquivBEq κ] {t : Table κ α} (hd : t.Distinct) {k : κ} {v : α}
    (h : (k, v) ∈ t) : t.get? k = some v := by
  induction t with
  | nil => cases h
  | cons e r ih =>
    obtain ⟨hhead, htail⟩ := List.pairwise_cons.mp hd
    rw [get?_cons]
    rcases List.mem_cons.mp h with rfl | hr
    · rw [if_pos BEq.rfl]
    · rw [if_neg (Bool.eq_false_iff.mp (hhead _ hr)), ih htail hr]

theorem get?_filterMap [EquivBEq κ] {β : Type w} {t : Table κ α} (hd : t.Distinct)
    (f : α → Option β) (k : κ) :
    get? (t.filterMap fun e => (f e.2).map fun b => (e.1, b)) k = (t.get? k).bind f := by
  induction t with
  | nil => rfl
  | cons e r ih =>
    obtain ⟨hhead, htail⟩ := List.pairwise_cons.mp hd
    rw [get?_cons, List.filterMap_cons]
    by_cases hk : (e.1 == k) = true
    · cases hf : f e.2 with
      | some b => simp [get?_cons, hk, hf]
      | none =>
        -- the later keys do not count as `k`, so nothing takes the place of the dropped value
        have hnone : get? r k = none := get?_eq_none_of_beq hhead hk
        simp [hk, hf, ih htail, hnone]
    · cases hf : f e.2 with
      | some b => simp [get?_cons, hk, ih htail]
      | none => simp [hk, ih htail]

theorem get?_filter [EquivBEq κ] {t : Table κ α} (hd : t.Distinct) (p : α → Bool) (k : κ) :
    get? (t.filter fun e => p e.2) k = (t.get? k).filter p := by
  induction t with
  | nil => rfl
  | cons e r ih =>
    obtain ⟨k', v⟩ := e
    obtain ⟨hhead, htail⟩ := List.pairwise_cons.mp hd
    rw [List.filter_cons, get?_cons]
    by_cases hk : (k' == k) = true
    · have hnone : get? r k = none := get?_eq_none_of_beq hhead hk
      cases hp : p v <;> simp [get?_cons, hk, hp, ih htail, hnone, Option.filter_some]
    · cases hp : p v <;> simp [get?_cons, hk, ih htail]

/-- The values under the keys that count as `k` are the one that is found, if there is one. -/
theorem filter_map_snd [EquivBEq κ] {t : Table κ α} (hd : t.Distinct) (k : κ) :
    (t.filter (·.1 == k)).map (·.2) = (t.get? k).toList := by
  induction t with
  | nil => rfl
  | cons e r ih =>
    obtain ⟨hhead, htail⟩ := List.pairwise_cons.mp hd
    rw [List.filter_cons, get?_cons]
    by_cases hk : (e.1 == k) = true
    · rw [if_pos hk, if_pos hk, List.map_cons, ih htail, get?_eq_none_of_beq hhead hk]
      rfl
    · rw [if_neg hk, if_neg hk, ih htail]

/-! ## Insertion -/

theorem mem_insert {t : Table κ α} {k : κ} {v : α} {e : κ × α} (h : e ∈ t.insert k v) :
    e ∈ t ∨ e.2 = v ∧ (e.1 = k ∨ e.1 ∈ t.keys) := by
  induction t with
  | nil =>
    obtain rfl := List.mem_singleton.mp h
    exact .inr ⟨rfl, .inl rfl⟩
  | cons a r ih =>
    simp only [insert] at h
    split at h
    · rcases List.mem_cons.mp h with rfl | hr
      · exact .inr ⟨rfl, .inr List.mem_cons_self⟩
      · exact .inl (List.mem_cons_of_mem _ hr)
    · rcases List.mem_cons.mp h with rfl | hr
      · exact .inl List.mem_cons_self
      · rcases ih hr with hm | ⟨hv, hk | hk⟩
        · exact .inl (List.mem_cons_of_mem _ hm)
        · exact .inr ⟨hv, .inl hk⟩
        · exact .inr ⟨hv, .inr (List.mem_cons_of_mem _ hk)⟩

/-- What an inserted entry counts as: an old entry, or one whose key counts as the new one. -/
theorem mem_insert_beq [EquivBEq κ] {t : Table κ α} {k : κ} {v : α} {e : κ × α}
    (h : e ∈ t.insert k v) : e ∈ t ∨ (e.1 == k) = true := by
  induction t with
  | nil =>
    obtain rfl := List.mem_singleton.mp h
    exact .inr BEq.rfl
  | cons a r ih =>
    simp only [insert] at h
    split at h
    · rename_i hk
      rcases List.mem_cons.mp h with rfl | hr
      · exact .inr hk
      · exact .inl (List.mem_cons_of_mem _ hr)
    · rcases List.mem_cons.mp h with rfl | hr
      · exact .inl List.mem_cons_self
      · exact (ih hr).imp (List.mem_cons_of_mem _) id

theorem distinct_insert [EquivBEq κ] {t : Table κ α} (hd : t.Distinct) (k : κ) (v : α) :
    (t.insert k v).Distinct := by
  induction t with
  | nil => exact List.pairwise_singleton _ _
  | cons a r ih =>
    obtain ⟨hhead, htail⟩ := List.pairwise_cons.mp hd
    simp only [insert]
    split
    · exact List.pairwise_cons.mpr ⟨hhead, htail⟩
    · rename_i hk
      refine List.pairwise_cons.mpr ⟨fun e he => ?_, ih htail⟩
      rcases mem_insert_beq he with hm | heq
      · exact hhead e hm
      · -- an entry that counts as `k` does not count as `a`, which does not count as `k`
        exact Bool.eq_false_iff.mpr fun hae => hk (BEq.trans hae heq)

theorem contains_insert [EquivBEq κ] (t : Table κ α) (k l : κ) (v : α) :
    (t.insert k v).contains l = (k == l || t.contains l) := by
  unfold contains
  rw [get?_insert]
  cases k == l <;> rfl

theorem insert_of_get? {t : Table κ α} {k : κ} {v : α} (h : t.get? k = some v) :
    t.insert k v = t := by
  induction t with
  | nil => cases h
  | cons e r ih =>
    obtain ⟨k', w⟩ := e
    rw [get?_cons] at h
    simp only [insert]
    split at h
    · rename_i hk
      rw [if_pos hk, Option.some.inj h]
    · rename_i hk
      rw [if_neg hk, ih h]

/-! ## Erasure -/

theorem mem_erase {t : Table κ α} {k : κ} {e : κ × α} :
    e ∈ t.erase k ↔ e ∈ t ∧ (e.1 == k) = false := by
  simp [erase]

theorem distinct_erase {t : Table κ α} (hd : t.Distinct) (k : κ) : (t.erase k).Distinct :=
  hd.filter _

theorem keys_erase (t : Table κ α) (k : κ) :
    (t.erase k).keys = t.keys.filter fun k' => !(k' == k) := by
  simp only [keys, erase, List.filter_map]
  rfl

theorem contains_erase [EquivBEq κ] (t : Table κ α) (k l : κ) :
    (t.erase k).contains l = (!(k == l) && t.contains l) := by
  unfold contains
  rw [get?_erase]
  cases k == l <;> rfl

/-- Distinct keys that all count as keys of another table are no more than those. -/
theorem length_le_of_contains [EquivBEq κ] {t u : Table κ α} (hd : t.Distinct)
    (h : ∀ e ∈ t, u.contains e.1 = true) : t.length ≤ u.length := by
  induction t generalizing u with
  | nil => exact Nat.zero_le _
  | cons e r ih =>
    obtain ⟨hhead, htail⟩ := List.pairwise_cons.mp hd
    obtain ⟨hkey, hrest⟩ := List.forall_mem_cons.mp h
    have hleft : r.length ≤ (u.erase e.1).length := by
      refine ih htail fun e' he' => ?_
      rw [contains_erase, hhead e' he', hrest e' he']
      rfl
    obtain ⟨e', he', hsame⟩ := contains_iff.mp hkey
    have hshorter : (u.erase e.1).length < u.length :=
      List.length_filter_lt_length_iff_exists.mpr ⟨e', he', by simp [hsame]⟩
    exact Nat.succ_le_of_lt (Nat.lt_of_le_of_lt hleft hshorter)

/-! ## Lists of pairs -/

theorem insertAll_cons (t : Table κ α) (e : κ × α) (pairs : List (κ × α)) :
    t.insertAll (e :: pairs) = (t.insert e.1 e.2).insertAll pairs := rfl

theorem mem_insertAll {pairs : List (κ × α)} {e : κ × α} : ∀ {t : Table κ α},
    e ∈ t.insertAll pairs → e ∈ t ∨ ∃ p ∈ pairs, p.2 = e.2 := by
  induction pairs with
  | nil => exact fun h => .inl h
  | cons p r ih =>
    intro t h
    rcases ih h with hold | ⟨q, hq, hv⟩
    · rcases mem_insert hold with ht | ⟨hv, -⟩
      · exact .inl ht
      · exact .inr ⟨p, List.mem_cons_self, hv.symm⟩
    · exact .inr ⟨q, List.mem_cons_of_mem _ hq, hv⟩

theorem distinct_insertAll [EquivBEq κ] {t : Table κ α} (hd : t.Distinct)
    (pairs : List (κ × α)) : (t.insertAll pairs).Distinct := by
  induction pairs generalizing t with
  | nil => exact hd
  | cons e r ih => exact ih (distinct_insert hd e.1 e.2)

theorem contains_insertAll [EquivBEq κ] (pairs : List (κ × α)) (t : Table κ α) (k : κ) :
    (t.insertAll pairs).contains k = (t.contains k || contains pairs k) := by
  induction pairs generalizing t with
  | nil => simp [insertAll, contains, get?]
  | cons e r ih =>
    obtain ⟨k', v⟩ := e
    rw [insertAll_cons, ih]
    simp only [contains, get?_insert, get?_cons]
    split <;> simp

/-- Pairs with distinct keys are found where there are any, the table elsewhere. -/
theorem get?_insertAll [EquivBEq κ] {pairs : Table κ α} (hd : pairs.Distinct) (t : Table κ α)
    (k : κ) : (t.insertAll pairs).get? k = (pairs.get? k).or (t.get? k) := by
  induction pairs generalizing t with
  | nil => rfl
  | cons e r ih =>
    obtain ⟨hhead, htail⟩ := List.pairwise_cons.mp hd
    rw [insertAll_cons, ih htail, get?_insert, get?_cons]
    split
    · rename_i hk
      rw [get?_eq_none_of_beq hhead hk]
      rfl
    · rfl

end Compliance.Table
