import Compliance.Proofs.ContextCoverage
import Compliance.Proofs.ResolveFacts

/-! # A value laid over itself

Resolving lays the value of a check over itself as often as the check is reached. This changes
nothing, because merging the documents has left no twins in any list; and it is reported with notes
only, because a value that holds no NaN equals itself.

* `Tree.NaNFree`: no part of a tree is a NaN.
* `Tree.SelfTwin`, `Tree.Steady`: nodes of the documents, and what merging makes of them.
* `keeps_steady`: merging the documents makes steady nodes.
* `deepMerge_self`: a mapping of steady nodes laid over itself is itself, in the same order.
* `resolveStep_self`: so a value set again stays, and is reported with a note.
-/

namespace Compliance

open Compliance.Tree (Throughout throughout_map throughout_of_forall KeysDistinct Within)

namespace Tree

/-- No part of the tree is a NaN. -/
def NaNFree (t : Tree) : Prop := ∀ u, Within u t → u.isNaN = false

instance : DecidablePred NaNFree := fun t =>
  decidable_of_iff (allWithin (fun u => !u.isNaN) t = true)
    ((allWithin_iff t).trans (by simp only [NaNFree, Bool.not_eq_true']))

theorem twins_self {t : Tree} (hk : KeysDistinct t) (hn : t.isNaN = false) : twins t t = true := by
  simp [twins, equals, alike_self t hk, hn]

/-- The node can be told to be what it is: it is no NaN and, as a list, has none among its items. -/
def SelfTwin : Tree → Prop
  | .scalar s => s.isNaN = false
  | .seq items => ∀ t ∈ items, twins t t = true
  | .map _ => True

/-- The node stays what it is when it is laid over itself. -/
def Steady : Tree → Prop
  | .scalar s => s.isNaN = false
  | .seq items => (∀ t ∈ items, twins t t = true) ∧ items.Pairwise fun a b => twins a b = false
  | .map entries => Table.Distinct entries

theorem throughout_selfTwin {t : Tree} (hk : KeysDistinct t) (hn : NaNFree t) :
    Throughout SelfTwin t := fun u hu => by
  have hin : Within u t := within_of_reaches hu
  cases u with
  | scalar s => exact hn _ hin
  | map entries => trivial
  | seq items =>
    intro v hv
    have hitem : Within v t := hin.trans (.among hv .here)
    exact twins_self (fun w hw => hk w (hitem.trans hw)) (hn v hitem)

end Tree

open Compliance.Tree (SelfTwin Steady NaNFree)

/-- **Merging the documents makes steady nodes**, whatever the marker. -/
theorem keeps_steady (knockout : Knockout) :
    Merge.Keeps (sectionMode knockout) SelfTwin Steady where
  scalar _ h _ := h
  replaced _ hu _ _ := Bool.noConfusion hu
  united existing items _ hexisting hitems := by
    refine ⟨fun t ht => ?_, Merge.pairwise_unionItems _ _ _⟩
    rcases Merge.mem_unionItems ht with hold | ⟨hnew, -⟩
    · exact (hexisting (List.ne_nil_of_mem hold)).1 t hold
    · exact hitems t hnew
  empty := List.Pairwise.nil
  insert _ _ _ _ _ hm _ _ := Table.distinct_insert hm _ _
  erase _ _ hm := Table.distinct_erase hm _

theorem steady_pulledChecks {corpus : Corpus}
    (hkeys : ∀ part ∈ corpus.parts, KeysDistinct (.map part.2))
    (hnan : ∀ part ∈ corpus.parts, NaNFree (.map part.2)) {lead : Option String}
    {checkType : String} {profile : Scalar} {context : Tree} {check : UsableCheck}
    (h : check ∈ pulledChecks corpus lead checkType profile context) :
    Throughout Steady check.value := by
  refine pulledChecks_keeps (keeps_steady _) (fun _ _ _ _ => trivial) (fun found hfound => ?_) h
  obtain ⟨part, hpart, -, hin⟩ := exists_part_of_mem_sections hfound
  exact (throughout_map.mp (Tree.throughout_selfTwin (hkeys part hpart) (hnan part hpart))).2 _ hin

/-! ## Merging -/

mutual

theorem mergeValue_self : ∀ t : Tree, Throughout Steady t → mergeValue .unite (some t) t = some t
  | .scalar s, _ => by
    rw [mergeValue]
    simp only [Merge.Mode.unite, Knockout.removes, Bool.false_eq_true, if_false]
    split <;> rfl
  | .seq items, h => by
    obtain ⟨hself, hapart⟩ : Steady (.seq items) := h.here
    rw [mergeValue]
    simp only [Merge.Mode.unite, Knockout.removes, Bool.false_eq_true, if_false, if_true,
      Merge.existingItems]
    rw [unionItems_off, unique_append_self hself hapart]
  | .map entries, h => by
    obtain ⟨hnode, hbelow⟩ := throughout_map.mp h
    have hentries : mergeEntries .unite entries entries = entries :=
      mergeEntries_self hnode entries (fun _ he => he) hbelow
    rw [mergeValue]
    simp only [Merge.Mode.unite, Knockout.removes, Bool.false_eq_true, if_false,
      Merge.existingEntries]
    exact congrArg (some ∘ Tree.map) hentries

theorem mergeEntries_self {whole : Mapping} (hd : Table.Distinct whole) :
    ∀ entries : List (Scalar × Tree), (∀ e ∈ entries, e ∈ whole) →
      (∀ e ∈ entries, Throughout Steady e.2) → mergeEntries .unite whole entries = whole
  | [], _, _ => by rw [mergeEntries]
  | (key, t) :: r, hin, h => by
    have hget : Table.get? whole key = some t := Table.get?_of_mem hd (hin _ List.mem_cons_self)
    rw [mergeEntries, hget, mergeValue_self t (h _ List.mem_cons_self), Merge.store,
      Table.insert_of_get? hget]
    exact mergeEntries_self hd r (fun e he => hin e (List.mem_cons_of_mem _ he))
      fun e he => h e (List.mem_cons_of_mem _ he)

end

/-- **A steady mapping laid over itself is itself.** -/
theorem deepMerge_self {m : Mapping} (h : Throughout Steady (.map m)) :
    deepMerge .unite m m = m := by
  obtain ⟨hnode, hbelow⟩ := throughout_map.mp h
  exact mergeEntries_self hnode m (fun _ he => he) hbelow

/-! ## Resolving -/

/-- **A steady value that is set again** stays, and nothing but notes is recorded about it. -/
theorem resolveStep_self {t : Tree} (h : Throughout Steady t) (label parameter : String) :
    (∀ m ∈ (resolveStep label parameter t t).messages, m.level = .note) ∧
      ∀ result, (resolveStep label parameter t t).outcome = .ok result → result = t := by
  have hnote : ∀ text, ∀ m ∈ [Message.note text], m.level = .note := fun text m hm => by
    rw [List.mem_singleton.mp hm]
    rfl
  unfold resolveStep
  cases t.kind? with
  | error fault => exact ⟨fun _ hm => absurd hm List.not_mem_nil, fun _ hr => by cases hr⟩
  | ok kind =>
    simp only [ne_eq, not_true_eq_false, if_false]
    cases t with
    | map entries =>
      refine ⟨hnote _, fun result hr => ?_⟩
      rw [← Except.ok.inj hr, deepMerge_self h]
    | seq items =>
      obtain ⟨hself, hapart⟩ : Steady (.seq items) := h.here
      refine ⟨hnote _, fun result hr => ?_⟩
      rw [← Except.ok.inj hr, unique_append_self hself hapart]
    | scalar s =>
      have hsame : Tree.equals (.scalar s) (.scalar s) = true := by
        have hn : Tree.isNaN (.scalar s) = false := h.here
        simp [Tree.equals, Tree.alike, hn]
      simp only [hsame, if_true]
      exact ⟨hnote _, fun result hr => (Except.ok.inj hr).symm⟩

end Compliance
