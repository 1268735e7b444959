import Compliance.Proofs.TableFacts
import Compliance.Merge
import Mathlib.Data.List.DropRight

/-! # The history of a section

What documents do to the entries of one section is a list of events: a value that is no mapping
resets the section, the bare marker deletes an entry, and any other value adds a fragment to one. An
entry is decided by its fragments behind the last reset and its own last deletion; these stand.

* `replay`: the section that a list of events makes, one event at a time.
* `standing`: the fragments of a key that stand.
* `get?_replay`: an entry is the merge of its standing fragments.
* `keys_replay`: the entries are ordered by their first standing fragments.
-/

namespace Compliance

/-- What a document does to the entries of a section. -/
inductive SectionEvent where
  | reset
  | deletion (key : Scalar)
  | fragment (key : Scalar) (value : Tree)

namespace SectionEvent

/-- The event ends what was there under the key. -/
def ends (key : Scalar) : SectionEvent → Bool
  | .reset => true
  | .deletion k => k == key
  | .fragment _ _ => false

/-- The value that the event adds under the key. -/
def adds? (key : Scalar) : SectionEvent → Option Tree
  | .fragment k value => if k == key then some value else none
  | _ => none

/-- The key under which the event adds a value. -/
def addedKey? : SectionEvent → Option Scalar
  | .fragment k _ => some k
  | _ => none

/-- The section after the event. -/
def apply (mode : Merge.Mode) (m : Mapping) : SectionEvent → Mapping
  | .reset => []
  | .deletion key => m.erase key
  | .fragment key value => Merge.store m key (mergeValue mode (m.get? key) value)

/-- The event is no fragment that the marker would remove. -/
def Proper (mode : Merge.Mode) : SectionEvent → Prop
  | .fragment _ value => mode.knockout.removes value = false
  | _ => True

end SectionEvent

open SectionEvent

/-- The fragments of a key behind the last event that ends it. -/
def standing (key : Scalar) (events : List SectionEvent) : List Tree :=
  (events.rtakeWhile fun e => !e.ends key).filterMap (·.adds? key)

/-- The key of event `i`, if the event is the first of the standing fragments of its key. -/
def opens? (events : List SectionEvent) (i : Nat) : Option Scalar :=
  (events[i]?.bind addedKey?).filter fun key =>
    (standing key (events.take i)).isEmpty && !(events.drop (i + 1)).any (·.ends key)

/-- The keys that have standing fragments, in the order of the first of these. -/
def openKeys (events : List SectionEvent) : List Scalar :=
  (List.range events.length).filterMap (opens? events)

def replay (mode : Merge.Mode) (events : List SectionEvent) : Mapping :=
  events.foldl (SectionEvent.apply mode) []

/-! ## One more event -/

theorem standing_concat (key : Scalar) (events : List SectionEvent) (e : SectionEvent) :
    standing key (events ++ [e]) =
      if e.ends key then [] else standing key events ++ (e.adds? key).toList := by
  unfold standing
  rw [List.rtakeWhile_concat]
  by_cases h : e.ends key = true
  · simp [h]
  · have hlast : [e].filterMap (·.adds? key) = (e.adds? key).toList := by
      cases ha : e.adds? key <;> simp [ha]
    simp [h, List.filterMap_append, hlast]

theorem replay_concat (mode : Merge.Mode) (events : List SectionEvent) (e : SectionEvent) :
    replay mode (events ++ [e]) = e.apply mode (replay mode events) := by
  rw [replay, List.foldl_append]
  rfl

theorem opens?_concat {events : List SectionEvent} (e : SectionEvent) {i : Nat}
    (h : i < events.length) :
    opens? (events ++ [e]) i = (opens? events i).filter fun key => !e.ends key := by
  unfold opens?
  rw [List.getElem?_append_left h, List.take_append_of_le_length (by omega),
    List.drop_append_of_le_length (by omega), Option.filter_filter]
  congr 1
  funext key
  simp [Bool.and_assoc]

/-- One more event closes the keys that it ends and opens the one that it adds to first. -/
theorem openKeys_concat (events : List SectionEvent) (e : SectionEvent) :
    openKeys (events ++ [e]) = (openKeys events).filter (fun key => !e.ends key) ++
      (e.addedKey?.filter fun key => (standing key events).isEmpty).toList := by
  have hold : (List.range events.length).filterMap (opens? (events ++ [e])) =
      (openKeys events).filter fun key => !e.ends key := by
    rw [openKeys, List.filter_filterMap]
    exact List.filterMap_congr fun i hi => opens?_concat e (List.mem_range.mp hi)
  have hnew : opens? (events ++ [e]) events.length =
      e.addedKey?.filter fun key => (standing key events).isEmpty := by
    unfold opens?
    simp
  rw [openKeys, List.length_append, List.length_singleton, List.range_succ,
    List.filterMap_append, hold]
  congr 1
  rw [List.filterMap_cons, List.filterMap_nil, hnew]
  cases e.addedKey?.filter fun key => (standing key events).isEmpty <;> rfl

/-! ## The replay of events -/

variable {mode : Merge.Mode}

theorem ite_none_iff {c : Prop} [Decidable c] {merged : Option Tree} (h : merged ≠ none) :
    (if c then none else merged) = none ↔ c := by
  split
  · rename_i hc
    exact iff_of_true rfl hc
  · rename_i hc
    exact iff_of_false h hc

theorem mergeValue_eq_none {current : Option Tree} {value : Tree} :
    mergeValue mode current value = none ↔ mode.knockout.removes value = true := by
  cases value with
  | scalar s =>
    rw [mergeValue, ite_none_iff]
    split <;> exact Option.some_ne_none _
  | seq items =>
    rw [mergeValue, ite_none_iff]
    split <;> exact Option.some_ne_none _
  | map entries =>
    rw [mergeValue, ite_none_iff]
    exact Option.some_ne_none _

theorem apply_fragment {value : Tree} (h : mode.knockout.removes value = false) (key : Scalar)
    (m : Mapping) :
    ∃ t, mergeValue mode (m.get? key) value = some t ∧
      (fragment key value).apply mode m = m.insert key t := by
  have hmerged : mergeValue mode (m.get? key) value ≠ none :=
    fun hnone => Bool.false_ne_true (h.symm.trans (mergeValue_eq_none.mp hnone))
  obtain ⟨t, ht⟩ := Option.ne_none_iff_exists'.mp hmerged
  refine ⟨t, ht, ?_⟩
  rw [SectionEvent.apply, ht]
  rfl

/-- The merge of fragments one over the other, over nothing at first. -/
def foldFragments (mode : Merge.Mode) (fragments : List Tree) : Option Tree :=
  fragments.foldl (mergeValue mode) none

theorem foldFragments_concat (fragments : List Tree) (value : Tree) :
    foldFragments mode (fragments ++ [value]) =
      mergeValue mode (foldFragments mode fragments) value := by
  rw [foldFragments, List.foldl_append]
  rfl

/-- Fragments that the marker leaves in make a value, if there is any of them. -/
theorem foldFragments_eq_none {fragments : List Tree}
    (h : ∀ t ∈ fragments, mode.knockout.removes t = false) :
    foldFragments mode fragments = none ↔ fragments = [] := by
  rcases List.eq_nil_or_concat fragments with rfl | ⟨front, last, rfl⟩
  · exact ⟨fun _ => rfl, fun _ => rfl⟩
  · rw [List.concat_eq_append] at h ⊢
    have hlast := h last (List.mem_append_right _ List.mem_cons_self)
    rw [foldFragments_concat, mergeValue_eq_none, hlast]
    simp

theorem removes_standing {events : List SectionEvent} (h : ∀ e ∈ events, e.Proper mode)
    {key : Scalar} {t : Tree} (ht : t ∈ standing key events) :
    mode.knockout.removes t = false := by
  obtain ⟨e, he, ha⟩ := List.mem_filterMap.mp ht
  have hproper := h e ((List.rtakeWhile_suffix _ _).mem he)
  cases e with
  | fragment k value =>
    simp only [adds?] at ha
    split at ha
    · exact Option.some.inj ha ▸ hproper
    · cases ha
  | reset => cases ha
  | deletion k => cases ha

/-- **An entry of a replay** is the merge of its standing fragments. -/
theorem get?_replay {events : List SectionEvent} (h : ∀ e ∈ events, e.Proper mode)
    (key : Scalar) :
    (replay mode events).get? key = foldFragments mode (standing key events) := by
  induction events using List.reverseRecOn with
  | nil => rfl
  | append_singleton events e ih =>
    have hbefore := ih fun e' he => h e' (List.mem_append_left _ he)
    have hproper := h e (List.mem_append_right _ List.mem_cons_self)
    rw [replay_concat, standing_concat]
    cases e with
    | reset => rfl
    | deletion k =>
      simp only [apply, ends, Table.get?_erase, adds?, Option.toList_none, List.append_nil]
      rw [hbefore]
      split <;> rfl
    | fragment k value =>
      obtain ⟨t, ht, hstored⟩ := apply_fragment hproper k (replay mode events)
      rw [hstored, Table.get?_insert]
      simp only [ends, adds?, Bool.false_eq_true, if_false]
      split
      · -- the value is merged over what the fragments in front of it made
        rename_i hk
        rw [Table.get?_congr hk, hbefore] at ht
        rw [Option.toList_some, foldFragments_concat, ht]
      · rw [Option.toList_none, List.append_nil, hbefore]

theorem contains_replay {events : List SectionEvent} (h : ∀ e ∈ events, e.Proper mode)
    (key : Scalar) :
    (replay mode events).contains key = !(standing key events).isEmpty := by
  have hleft : ∀ t ∈ standing key events, mode.knockout.removes t = false :=
    fun t ht => removes_standing h ht
  have hnone := foldFragments_eq_none hleft
  rw [Table.contains, get?_replay h]
  cases hs : standing key events with
  | nil => rfl
  | cons t r =>
    rw [hs] at hnone
    cases hf : foldFragments mode (t :: r) with
    | none => exact absurd (hnone.mp hf) (List.cons_ne_nil _ _)
    | some u => rfl

/-- **The entries of a replay** stand in the order of their first standing fragments. -/
theorem keys_replay {events : List SectionEvent} (h : ∀ e ∈ events, e.Proper mode) :
    Table.keys (replay mode events) = openKeys events := by
  induction events using List.reverseRecOn with
  | nil => rfl
  | append_singleton events e ih =>
    have hearlier : ∀ e' ∈ events, e'.Proper mode := fun e' he => h e' (List.mem_append_left _ he)
    have hproper := h e (List.mem_append_right _ List.mem_cons_self)
    rw [replay_concat, openKeys_concat, ← ih hearlier]
    cases e with
    | reset => simp [apply, ends, addedKey?, Table.keys]
    | deletion k =>
      simp only [apply, ends, addedKey?, Table.keys_erase, Option.filter_none, Option.toList_none,
        List.append_nil]
      exact List.filter_congr fun k' _ => congrArg not BEq.comm
    | fragment k value =>
      obtain ⟨t, -, hstored⟩ := apply_fragment hproper k (replay mode events)
      rw [hstored, Table.keys_insert, contains_replay hearlier]
      -- a key that is there keeps its place, any other comes last
      simp only [ends, addedKey?, Option.filter_some]
      cases (standing k events).isEmpty <;> simp

/-- A key that is deleted and comes again comes last. -/
example : openKeys [.fragment (.str "a") .null, .fragment (.str "b") .null, .deletion (.str "a"),
    .fragment (.str "a") .null] = [.str "b", .str "a"] := rfl

end Compliance
