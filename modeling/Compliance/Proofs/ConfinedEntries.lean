import Compliance.Proofs.ConfinedView
import Compliance.Proofs.EntryHistory

/-! # The merged data of a context, entry by entry

The documents that take part are read once more, this time for one section only: each value that
they hold under its key is a list of events. What a context leaves out is no event.

* `heldSections`, `history`: the values of a section in the documents, and their events;
  `heldSections_eq_filterMap`: one value for each document with the section.
* `get?_sectionStep`: what one more value does to an entry.
* `get?_confinedView`: a section is what its last value says, a mapping being the replay of the
  history of its section.
* `confined_entries`: the merge of a context ends, and each entry of its result is the merge of the
  fragments that stand.
-/

namespace Compliance

open SectionEvent

/-- The values that the documents hold under a section key, each with its file, in order. -/
def heldSections (corpus : Corpus) (section_ : Scalar) : List (String × Tree) :=
  corpus.flatMap fun (file, document) =>
    match document with
    | .map entries =>
      if file = "merged data" then []
      else (entries.filter (·.1 == section_)).map fun e => (file, e.2)
    | _ => []

/-- The value is the bare marker, which is no empty text. -/
def isMarker (lead : Option String) (value : Tree) : Bool :=
  match lead, value with
  | some p, .str s => p ≠ "" && s == p
  | _, _ => false

/-- What an entry of a section does: nothing if the context leaves it out. -/
def entryEvent? (lead : Option String) (context : Tree) (file : String) (e : Scalar × Tree) :
    Option SectionEvent :=
  if isMarker lead e.2 then some (.deletion e.1)
  else if keptUnder file context e then some (.fragment e.1 e.2)
  else none

/-- What a value of a section does. -/
def sectionEvents (lead : Option String) (context : Tree) (part : String × Tree) :
    List SectionEvent :=
  match part.2 with
  | .map entries => entries.filterMap (entryEvent? lead context part.1)
  | _ => [.reset]

/-- What the documents do to a section. -/
def history (corpus : Corpus) (lead : Option String) (context : Tree) (section_ : Scalar) :
    List SectionEvent :=
  (heldSections corpus section_).flatMap (sectionEvents lead context)

/-- The last document with the section gives it a mapping. -/
def endsInMapping (corpus : Corpus) (section_ : Scalar) : Bool :=
  (heldSections corpus section_).getLast?.any (·.2.isMap)

/-- What stands under a key in a section of merged data. -/
def entryAt (merged : Mapping) (section_ key : Scalar) : Option Tree :=
  match merged.get? section_ with
  | some (.map entries) => Table.get? entries key
  | _ => none

/-! ## One section of one document -/

variable {lead : Option String} {context : Tree}

theorem isMarker_iff {value : Tree} :
    isMarker lead value = true ↔ ∃ p, lead = some p ∧ p ≠ "" ∧ value = .str p := by
  unfold isMarker
  split
  · rename_i p s
    simp only [ne_eq, Bool.and_eq_true, decide_eq_true_eq, beq_iff_eq]
    refine ⟨fun h => ⟨p, rfl, h.1, h.2 ▸ rfl⟩, fun ⟨q, hq, hne, hs⟩ => ?_⟩
    obtain rfl := Option.some.inj hq
    injection hs with hs
    injection hs with hs
    exact ⟨hne, hs⟩
  · rename_i h
    simp only [Bool.false_eq_true, false_iff]
    rintro ⟨p, rfl, -, rfl⟩
    exact h p p rfl rfl

theorem removes_eq_isMarker (lead : Option String) (value : Tree) :
    (Knockout.ofPrefix lead).removes value = isMarker lead value :=
  Bool.eq_iff_iff.mpr (Knockout.removes_ofPrefix.trans isMarker_iff.symm)

/-- A marker is no mapping and has no `confine`, so every context keeps it. -/
theorem keptUnder_of_isMarker {e : Scalar × Tree} (h : isMarker lead e.2 = true) (file : String)
    (context : Tree) : keptUnder file context e = true := by
  obtain ⟨p, -, -, hp⟩ := isMarker_iff.mp h
  unfold keptUnder
  split
  · rfl
  · rw [hp]
    rfl

theorem entryEvent?_proper {file : String} {e : Scalar × Tree} {event : SectionEvent}
    (h : entryEvent? lead context file e = some event) :
    event.Proper (sectionMode (.ofPrefix lead)) := by
  unfold entryEvent? at h
  split at h
  · obtain rfl := Option.some.inj h
    trivial
  · rename_i hm
    split at h
    · obtain rfl := Option.some.inj h
      exact (removes_eq_isMarker lead e.2).trans (Bool.eq_false_iff.mpr hm)
    · cases h

theorem proper_history (corpus : Corpus) (lead : Option String) (context : Tree)
    (section_ : Scalar) :
    ∀ e ∈ history corpus lead context section_, e.Proper (sectionMode (.ofPrefix lead)) := by
  intro event he
  obtain ⟨⟨file, value⟩, -, hin⟩ := List.mem_flatMap.mp he
  unfold sectionEvents at hin
  split at hin
  · obtain ⟨e, -, hev⟩ := List.mem_filterMap.mp hin
    exact entryEvent?_proper hev
  · obtain rfl := List.mem_singleton.mp hin
    trivial

theorem deepMerge_cons (lead : Option String) (key : Scalar) (value : Tree) (base : Mapping)
    (entries : List (Scalar × Tree)) :
    deepMerge (sectionMode (.ofPrefix lead)) base ((key, value) :: entries) =
      deepMerge (sectionMode (.ofPrefix lead))
        ((if isMarker lead value then deletion key else fragment key value).apply
          (sectionMode (.ofPrefix lead)) base) entries := by
  unfold deepMerge
  rw [mergeEntries]
  split
  · rename_i hm
    have hr : (sectionMode (.ofPrefix lead)).knockout.removes value = true :=
      (removes_eq_isMarker lead value).trans hm
    rw [mergeValue_eq_none.mpr hr]
    rfl
  · rfl

/-- **The entries that a context keeps**, laid over a section, are its events one by one. -/
theorem deepMerge_filter (file : String) (entries : List (Scalar × Tree)) (base : Mapping) :
    deepMerge (sectionMode (.ofPrefix lead)) base (entries.filter (keptUnder file context)) =
      (entries.filterMap (entryEvent? lead context file)).foldl
        (SectionEvent.apply (sectionMode (.ofPrefix lead))) base := by
  induction entries generalizing base with
  | nil => rfl
  | cons e r ih =>
    obtain ⟨key, value⟩ := e
    rw [List.filter_cons, List.filterMap_cons]
    by_cases hm : isMarker lead value = true
    · have hkept : keptUnder file context (key, value) = true :=
        keptUnder_of_isMarker hm file context
      rw [hkept, if_pos rfl, deepMerge_cons, ih]
      simp [entryEvent?, hm]
    · by_cases hkept : keptUnder file context (key, value) = true
      · rw [hkept, if_pos rfl, deepMerge_cons, ih]
        simp [entryEvent?, hm, hkept]
      · simp [entryEvent?, hm, hkept, ih]

/-! ## One section of all documents -/

theorem heldSections_eq (corpus : Corpus) (section_ : Scalar) :
    heldSections corpus section_ =
      (corpus.sections.filter (·.2.1 == section_)).map fun part => (part.1, part.2.2) := by
  unfold heldSections Corpus.sections Corpus.parts
  induction corpus with
  | nil => rfl
  | cons d r ih =>
    obtain ⟨file, document⟩ := d
    rw [List.flatMap_cons, ih]
    cases document with
    | scalar s => simp
    | seq items => simp
    | map entries =>
      by_cases hname : file = mergedName
      · simp [hname, mergedName]
      · have hname' : file ≠ "merged data" := hname
        simp [hname, hname', List.filter_map, Function.comp_def]

/-- Each document holds one value for a section at most, for its keys are distinct. -/
theorem heldSections_eq_filterMap {corpus : Corpus}
    (hd : ∀ part ∈ corpus.parts, Table.Distinct part.2) (section_ : Scalar) :
    heldSections corpus section_ = corpus.parts.filterMap fun part =>
      (Table.get? part.2 section_).map fun t => (part.1, t) := by
  rw [heldSections_eq, Corpus.sections, List.filter_flatMap, List.map_flatMap,
    List.filterMap_eq_flatMap_toList]
  refine List.flatMap_congr fun part hpart => ?_
  have hone := congrArg (List.map fun t => (part.1, t))
    (Table.filter_map_snd (hd part hpart) section_)
  rw [List.map_map] at hone
  rw [List.filter_map, List.map_map, Option.toList_map]
  exact hone

theorem mem_heldSections {corpus : Corpus} {section_ : Scalar} {held : String × Tree}
    (h : held ∈ heldSections corpus section_) :
    ∃ part ∈ corpus.parts, part.1 = held.1 ∧
      ∃ key, (key, held.2) ∈ part.2 ∧ (key == section_) = true := by
  rw [heldSections_eq] at h
  obtain ⟨found, hin, rfl⟩ := List.mem_map.mp h
  obtain ⟨hsections, hkey⟩ := List.mem_filter.mp hin
  obtain ⟨part, hpart, hfile, he⟩ := exists_part_of_mem_sections hsections
  exact ⟨part, hpart, hfile, found.2.1, he, hkey⟩

theorem distinct_parts {corpus : Corpus}
    (h : ∀ part ∈ corpus.parts, Tree.KeysDistinct (.map part.2)) :
    ∀ part ∈ corpus.parts, Tree.Throughout Tree.DistinctNode (.map part.2) :=
  fun part hpart => (h part hpart).throughout

theorem distinct_heldSections {corpus : Corpus}
    (hd : ∀ part ∈ corpus.parts, Tree.Throughout Tree.DistinctNode (.map part.2))
    {section_ : Scalar} {held : String × Tree} (h : held ∈ heldSections corpus section_) :
    Table.Distinct held.2.entries := by
  obtain ⟨part, hpart, -, key, hin, -⟩ := mem_heldSections h
  exact (Tree.distinct_entries ((Tree.throughout_map.mp (hd part hpart)).2 _ hin)).here

/-- A section of merged data after one more value that a document holds. -/
def sectionStep (knockout : Knockout) (context : Tree) (current : Option Tree)
    (part : String × Tree) : Option Tree :=
  some (mergedSection knockout current (applyConfinement part.1 part.2 context).1)

/-- A section of merged data after the values that the documents hold. -/
def sectionView (lead : Option String) (context : Tree) (parts : List (String × Tree)) :
    Option Tree :=
  parts.foldl (sectionStep (.ofPrefix lead) context) none

theorem sectionView_concat (lead : Option String) (context : Tree) (parts : List (String × Tree))
    (part : String × Tree) :
    sectionView lead context (parts ++ [part]) =
      sectionStep (.ofPrefix lead) context (sectionView lead context parts) part := by
  rw [sectionView, List.foldl_append]
  rfl

/-- A section of the merged data depends on the values held under its key only. -/
theorem get?_foldl_viewStep (knockout : Knockout) (sections : List (String × Scalar × Tree))
    (merged : Mapping) (section_ : Scalar) :
    (sections.foldl (viewStep knockout context) merged).get? section_ =
      ((sections.filter (·.2.1 == section_)).map fun part => (part.1, part.2.2)).foldl
        (sectionStep knockout context) (merged.get? section_) := by
  induction sections generalizing merged with
  | nil => rfl
  | cons part r ih =>
    rw [List.foldl_cons, ih, viewStep, mergeSection_eq, Table.get?_insert, List.filter_cons]
    split
    · rename_i hk
      rw [List.map_cons, List.foldl_cons, sectionStep, Table.get?_congr hk]
    · rfl

theorem get?_confinedView (corpus : Corpus) (lead : Option String) (context : Tree)
    (section_ : Scalar) :
    (confinedView corpus (.ofPrefix lead) context).get? section_ =
      sectionView lead context (heldSections corpus section_) := by
  rw [heldSections_eq]
  exact get?_foldl_viewStep _ _ _ _

/-- The mapping under the name of a section is the mapping that stands there, if one does. -/
theorem mappingAt_eq_existingEntries (m : Mapping) (name : String) :
    Tree.mappingAt m name = Merge.existingEntries (Table.get? m (.str name)) := by
  unfold Tree.mappingAt Tree.mapField? Tree.field? Merge.existingEntries
  cases Table.get? m (.str name) with
  | none => rfl
  | some t => cases t <;> rfl

theorem existingEntries_sectionStep (knockout : Knockout) (current : Option Tree)
    (part : String × Tree) :
    Merge.existingEntries (sectionStep knockout context current part) =
      if part.2.isMap then
        deepMerge (sectionMode knockout) (Merge.existingEntries current)
          (part.2.entries.filter (keptUnder part.1 context))
      else [] := by
  obtain ⟨file, value⟩ := part
  unfold sectionStep
  cases value with
  | map entries =>
    rw [applyConfinement_map]
    rfl
  | scalar s =>
    rw [applyConfinement_of_isMap file rfl]
    rfl
  | seq items =>
    rw [applyConfinement_of_isMap file rfl]
    rfl

/-- **One entry after one more value**: what the context keeps of it is merged over what is there,
and a value that is no mapping leaves nothing. -/
theorem get?_sectionStep {knockout : Knockout} {current : Option Tree} {part : String × Tree}
    (hd : Table.Distinct part.2.entries) (key : Scalar) :
    Table.get? (Merge.existingEntries (sectionStep knockout context current part)) key =
      if part.2.isMap then
        match (Table.get? part.2.entries key).filter fun t => keptUnder part.1 context (key, t) with
        | none => Table.get? (Merge.existingEntries current) key
        | some t =>
          mergeValue (sectionMode knockout) (Table.get? (Merge.existingEntries current) key) t
      else none := by
  have hkept : keptUnder part.1 context = fun e => keptUnder part.1 context (key, e.2) :=
    funext fun e => keptUnder_key part.1 context e.1 key e.2
  have hget : Table.get? (part.2.entries.filter (keptUnder part.1 context)) key =
      (Table.get? part.2.entries key).filter fun t => keptUnder part.1 context (key, t) := by
    rw [hkept]
    exact Table.get?_filter hd (fun t => keptUnder part.1 context (key, t)) key
  rw [existingEntries_sectionStep]
  split
  · have hmerged := @get?_deepMerge (sectionMode knockout) _ (hd.filter (keptUnder part.1 context))
      (Merge.existingEntries current) key
    rw [hget] at hmerged
    exact hmerged
  · rfl

/-- The section that a list of events makes. -/
abbrev replayed (lead : Option String) (events : List SectionEvent) : Mapping :=
  replay (sectionMode (.ofPrefix lead)) events

/-- One more value: a mapping goes on with the replay, anything else ends it. -/
theorem mergedSection_replay {current : Option Tree} {events : List SectionEvent}
    (h : Merge.existingEntries current = replayed lead events) (part : String × Tree) :
    mergedSection (.ofPrefix lead) current (applyConfinement part.1 part.2 context).1 =
      if part.2.isMap then .map (replayed lead (events ++ sectionEvents lead context part))
      else part.2 := by
  obtain ⟨file, value⟩ := part
  cases value with
  | map entries =>
    rw [applyConfinement_map]
    unfold mergedSection
    simp only [h, Tree.isMap, if_true, sectionEvents, replayed, replay, List.foldl_append]
    rw [deepMerge_filter]
  | scalar s =>
    rw [applyConfinement_of_isMap file rfl]
    rfl
  | seq items =>
    rw [applyConfinement_of_isMap file rfl]
    rfl

/-- The invariant over the values of a section: a mapping is the replay of all events so far, and
where there is none the replay is empty. -/
theorem existingEntries_sectionView (lead : Option String) (context : Tree)
    (parts : List (String × Tree)) :
    Merge.existingEntries (sectionView lead context parts) =
      replayed lead (parts.flatMap (sectionEvents lead context)) := by
  induction parts using List.reverseRecOn with
  | nil => rfl
  | append_singleton parts part ih =>
    rw [sectionView_concat, sectionStep, mergedSection_replay ih, List.flatMap_append,
      List.flatMap_singleton]
    obtain ⟨file, value⟩ := part
    cases value with
    | map entries => rfl
    | scalar s => exact (replay_concat _ _ .reset).symm
    | seq items => exact (replay_concat _ _ .reset).symm

/-- **A section of merged data** is the last value that a document holds, a mapping being the replay
of the whole history. -/
theorem sectionView_eq (lead : Option String) (context : Tree) (parts : List (String × Tree)) :
    sectionView lead context parts = parts.getLast?.map fun part =>
      if part.2.isMap then .map (replayed lead (parts.flatMap (sectionEvents lead context)))
      else part.2 := by
  rcases List.eq_nil_or_concat parts with rfl | ⟨front, last, rfl⟩
  · rfl
  · rw [List.concat_eq_append, List.getLast?_concat, sectionView_concat, sectionStep,
      mergedSection_replay (existingEntries_sectionView lead context front), List.flatMap_append,
      List.flatMap_singleton]
    rfl

/-! ## The entries -/

/-- A mapping in the merged data is the replay of the history of its section, and there is one
exactly if the last document with the section gives it a mapping. -/
theorem get?_confinedView_map {corpus : Corpus} {section_ : Scalar} {entries : Mapping} :
    (confinedView corpus (.ofPrefix lead) context).get? section_ = some (.map entries) ↔
      endsInMapping corpus section_ = true ∧
        entries = replayed lead (history corpus lead context section_) := by
  rw [get?_confinedView, sectionView_eq]
  unfold endsInMapping
  cases (heldSections corpus section_).getLast? with
  | none => simp
  | some part =>
    obtain ⟨file, value⟩ := part
    cases value with
    | map es =>
      simp only [Tree.isMap, if_true, Option.map_some, Option.some.injEq, Tree.map.injEq,
        Option.any_some, true_and]
      exact eq_comm
    | scalar s => simp [Tree.isMap]
    | seq items => simp [Tree.isMap]

theorem entryAt_confinedView (corpus : Corpus) (lead : Option String) (context : Tree)
    (section_ key : Scalar) :
    entryAt (confinedView corpus (.ofPrefix lead) context) section_ key =
      if endsInMapping corpus section_ then
        foldFragments (sectionMode (.ofPrefix lead))
          (standing key (history corpus lead context section_))
      else none := by
  unfold entryAt
  split
  · rename_i entries he
    obtain ⟨hends, rfl⟩ := get?_confinedView_map.mp he
    rw [if_pos hends]
    exact get?_replay (proper_history corpus lead context section_) key
  · rename_i h
    rw [if_neg]
    exact fun hends => h _ (get?_confinedView_map.mpr ⟨hends, rfl⟩)

/-- **The merge of a context, entry by entry.** It ends; an entry is there exactly if the last
document with its section gives that a mapping and some fragment of the entry stands; it is the
merge of the fragments that stand, from nothing on; and the entries come in the order of the first
of these. -/
theorem confined_entries (corpus : Corpus) (lead : Option String) (context : Tree) :
    ∃ merged, (mergeConfined corpus (.ofPrefix lead) context).outcome = .ok merged ∧
      ∀ section_ : Scalar,
        (∀ key, (entryAt merged section_ key).isSome = true ↔
          endsInMapping corpus section_ = true ∧
            standing key (history corpus lead context section_) ≠ []) ∧
        (∀ key t, entryAt merged section_ key = some t →
          (standing key (history corpus lead context section_)).foldl
            (mergeValue ⟨true, .ofPrefix lead⟩) none = some t) ∧
        ∀ entries, merged.get? section_ = some (.map entries) →
          Table.keys entries = openKeys (history corpus lead context section_) := by
  refine ⟨_, mergeConfined_ofPrefix corpus lead context, fun section_ => ?_⟩
  have hproper := proper_history corpus lead context section_
  refine ⟨fun key => ?_, fun key t ht => ?_, fun entries he => ?_⟩
  · rw [entryAt_confinedView, Option.isSome_iff_ne_none]
    split
    · rename_i hends
      have hleft : ∀ t ∈ standing key (history corpus lead context section_),
          (sectionMode (.ofPrefix lead)).knockout.removes t = false :=
        fun t ht => removes_standing hproper ht
      exact (not_congr (foldFragments_eq_none hleft)).trans (and_iff_right hends).symm
    · rename_i hends
      exact ⟨fun h => absurd rfl h, fun h => absurd h.1 hends⟩
  · rw [entryAt_confinedView] at ht
    split at ht
    · exact ht
    · cases ht
  · obtain ⟨-, rfl⟩ := get?_confinedView_map.mp he
    exact keys_replay hproper

end Compliance
