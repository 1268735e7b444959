import Compliance.Proofs.ConfinedView
import Compliance.Proofs.LastWriter
import Mathlib.Data.List.Basic

/-! # The linted view and the compiled view agree

The merged view is linted, and it names the profiles and the contexts; the merged data of a context
are compiled. The two are merged in different modes, which differ on lists, on nulls and on the
marker. Where no section holds any of these, they are the same mapping with the same order of keys.

* `Inside`: what a section holds, itself excepted.
* `Indifferent`: a node on which the modes do not differ.
* `mergeValue_agree`, `mergeEntries_agree`: on such nodes they agree.
* `merged_eq_foldl`: the merged view, like the merged data of a context, section by section.
* `mergeConfined_eq_merged`: so the two views are the same.
-/

namespace Compliance

open Compliance.Tree (Throughout throughout_map)

/-- The node is held by a section: it is reached from one of its entries through mappings only. -/
def Inside (u section_ : Tree) : Prop :=
  ∃ (entries : Mapping) (key : Scalar) (t : Tree),
    section_ = .map entries ∧ (key, t) ∈ entries ∧ Tree.Reaches u t

theorem forall_inside {P : Tree → Prop} {entries : Mapping} :
    (∀ u, Inside u (.map entries) → P u) ↔ ∀ e ∈ entries, Throughout P e.2 := by
  refine ⟨fun h e he u hu => h u ⟨entries, e.1, e.2, rfl, he, hu⟩, fun h u hu => ?_⟩
  obtain ⟨_, key, t, heq, hin, hu⟩ := hu
  obtain rfl := Tree.map.inj heq
  exact h _ hin u hu

theorem not_inside {u t : Tree} (h : t.isMap = false) : ¬ Inside u t := by
  rintro ⟨entries, key, v, rfl, -, -⟩
  cases h

/-- No list, no null, and nothing that the marker removes. -/
structure Indifferent (knockout : Knockout) (t : Tree) : Prop where
  notList : ∀ items, t ≠ .seq items
  notNull : t ≠ .null
  notRemoved : knockout.removes t = false

/-! ## One merge in two modes -/

variable {knockout : Knockout}

theorem dataType_eq_null {s : Scalar} : s.dataType = .null ↔ s = .null := by
  cases s <;> simp [Scalar.dataType]

mutual

/-- **The modes agree on a value** that is indifferent throughout. -/
theorem mergeValue_agree : ∀ (t : Tree) (current : Option Tree),
    Throughout (Indifferent knockout) t →
    mergeValue (sectionMode knockout) current t = mergeValue .replace current t
  | .scalar s, current, h => by
    have hs : s.dataType ≠ .null := fun hnull =>
      h.here.notNull (congrArg Tree.scalar (dataType_eq_null.mp hnull))
    rw [mergeValue_replace_of_isMap rfl, mergeValue]
    simp [sectionMode, h.here.notRemoved, hs]
  | .seq items, _, h => absurd rfl (h.here.notList items)
  | .map entries, current, h => by
    rw [mergeValue_replace_map, mergeValue]
    simp only [sectionMode, h.here.notRemoved, Bool.false_eq_true, if_false]
    rw [deepMerge, ← mergeEntries_agree entries _ (throughout_map.mp h).2]
    rfl

/-- Laying entries over a mapping gives the same in both modes. -/
theorem mergeEntries_agree : ∀ (entries : List (Scalar × Tree)) (base : Mapping),
    (∀ e ∈ entries, Throughout (Indifferent knockout) e.2) →
    mergeEntries (sectionMode knockout) base entries = mergeEntries .replace base entries
  | [], _, _ => by rw [mergeEntries, mergeEntries]
  | (key, t) :: r, base, h => by
    rw [mergeEntries, mergeEntries, mergeValue_agree t _ (h _ List.mem_cons_self)]
    exact mergeEntries_agree r _ fun e he => h e (List.mem_cons_of_mem _ he)

end

/-! ## Section by section -/

/-- One section of a document laid over the merged view. -/
def overlayStep (merged : Mapping) (part : String × Scalar × Tree) : Mapping :=
  Merge.store merged part.2.1 (mergeValue .replace (merged.get? part.2.1) part.2.2)

theorem mergeEntries_eq_foldl (file : String) (entries : Mapping) (base : Mapping) :
    mergeEntries .replace base entries =
      (entries.map fun e => (file, e)).foldl overlayStep base := by
  induction entries generalizing base with
  | nil => rw [mergeEntries]; rfl
  | cons e r ih =>
    obtain ⟨key, t⟩ := e
    rw [mergeEntries, ih]
    rfl

/-- **The merged view as a fold** over the sections of all documents. -/
theorem merged_eq_foldl (corpus : Corpus) :
    corpus.merged = corpus.sections.foldl overlayStep [] := by
  unfold Corpus.merged Corpus.sections
  rw [List.foldl_flatMap]
  congr 1
  funext merged ⟨file, entries⟩
  exact mergeEntries_eq_foldl file entries merged

/-- A section that holds indifferent nodes only is laid over both views in the same way. -/
theorem viewStep_eq_overlayStep {part : String × Scalar × Tree}
    (h : ∀ u, Inside u part.2.2 → Indifferent knockout u) (merged : Mapping) :
    viewStep knockout .null merged part = overlayStep merged part := by
  obtain ⟨file, key, value⟩ := part
  cases value with
  | scalar s =>
    rw [overlayStep, mergeValue_replace_of_isMap rfl]
    rfl
  | seq items =>
    rw [overlayStep, mergeValue_replace_of_isMap rfl]
    rfl
  | map entries =>
    rw [overlayStep, mergeValue_replace_map]
    simp only [deepMerge, ← mergeEntries_agree entries _ (forall_inside.mp h)]
    rfl

/-- **Both views are the same** where no section holds a list, a null or the marker. Top-level
values that are no mappings may be anything. -/
theorem mergeConfined_eq_merged (corpus : Corpus) (lead : Option String)
    (hplain : ∀ part ∈ corpus.sections, ∀ u, Inside u part.2.2 →
      u ≠ .null ∧ ∀ items, u ≠ .seq items)
    (hlead : ∀ p, lead = some p → p ≠ "" → ∀ part ∈ corpus.sections, ∀ u, Inside u part.2.2 →
      u ≠ .str p) :
    (mergeConfined corpus (.ofPrefix lead) .null).outcome = .ok corpus.merged := by
  have hindifferent : ∀ part ∈ corpus.sections, ∀ u, Inside u part.2.2 →
      Indifferent (.ofPrefix lead) u := fun part hp u hu => by
    obtain ⟨hnull, hlist⟩ := hplain part hp u hu
    refine ⟨hlist, hnull, Bool.eq_false_iff.mpr fun hr => ?_⟩
    obtain ⟨p, hlead', hne, hmarker⟩ := Knockout.removes_ofPrefix.mp hr
    exact hlead p hlead' hne part hp u hu hmarker
  rw [mergeConfined_ofPrefix, merged_eq_foldl, confinedView]
  refine congrArg Except.ok (List.foldl_ext _ _ _ fun merged part hp => ?_)
  exact viewStep_eq_overlayStep (hindifferent part hp) merged

/-- Lists and nulls at the top, a mapping over a number, and a text that only begins with the
marker. -/
def plainSections : Corpus := [
  ("a.yaml", .map [(.str "profiles", .map [(.str "p", .map [(.str "x", .int 1)])]),
    (.str "tags", .seq [.null])]),
  ("b.yaml", .map [(.str "tags", .null),
    (.str "profiles", .map [(.str "q", .str "--z"), (.str "p", .map [(.str "x", .map [])])])])]

/-- Both views of such documents, under a marker. -/
theorem mergeConfined_eq_merged_plain :
    (∀ part ∈ plainSections.sections, ∀ u, Inside u part.2.2 →
      u ≠ .null ∧ ∀ items, u ≠ .seq items) ∧
    (∀ p, some "--" = some p → p ≠ "" → ∀ part ∈ plainSections.sections, ∀ u, Inside u part.2.2 →
      u ≠ .str p) ∧
    (mergeConfined plainSections (.ofPrefix (some "--")) .null).outcome =
      .ok [(.str "profiles", .map [(.str "p", .map [(.str "x", .map [])]), (.str "q", .str "--z")]),
        (.str "tags", .null)] := by
  have hseq : ∀ u items, ¬ Inside u (.seq items) := fun _ _ => not_inside rfl
  have hscalar : ∀ u s, ¬ Inside u (.scalar s) := fun _ _ => not_inside rfl
  have hplain : ∀ part ∈ plainSections.sections, ∀ u, Inside u part.2.2 →
      u ≠ .null ∧ ∀ items, u ≠ .seq items := by
    simp [plainSections, Corpus.sections, Corpus.parts, mergedName, forall_inside, hseq, hscalar,
      throughout_map, Tree.throughout_scalar]
  have hlead : ∀ p, some "--" = some p → p ≠ "" → ∀ part ∈ plainSections.sections,
      ∀ u, Inside u part.2.2 → u ≠ .str p := by
    rintro p ⟨⟩ -
    simp [plainSections, Corpus.sections, Corpus.parts, mergedName, forall_inside, hseq, hscalar,
      throughout_map, Tree.throughout_scalar]
  exact ⟨hplain, hlead, mergeConfined_eq_merged plainSections (some "--") hplain hlead⟩

end Compliance
