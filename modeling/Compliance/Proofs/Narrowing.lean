import Compliance.Proofs.ConfinedEntries
import Compliance.Proofs.Routes
import Compliance.Proofs.Runs

/-! # Confinement only removes

A context drops fragments of entries. Where entries are split over documents, dropping one fragment
can change what the others make of the entry; but if no two documents define the same entry, each
entry is there as a whole or not at all. The merged data of a context is then part of the merged
data without one, and so is everything that is read off it: the index of the checks, the checks of a
profile and the parameters that these set.

* `Table.Sub`: one table finds nothing but what another finds.
* `EntriesApart`: no two documents define the same entry.
* `sub_sectionStep`, `narrower_sectionView`: one document, and all documents, over a section.
* `CheckMap.Sub`, `sub_addAll`, `sub_profileChecks`: the index, and the checks of a profile.
* `confinement_narrows`: a context adds no parameter and no name.
-/

namespace Compliance

open Compliance.Tree (Throughout DistinctNode mappingAt)

/-! ## The order -/

/-- What the first table finds, the second finds too. -/
def Table.Sub {κ : Type u} {α : Type v} [BEq κ] (a b : Table κ α) : Prop :=
  ∀ k v, a.get? k = some v → b.get? k = some v

namespace Table

variable {κ : Type u} {α : Type v} [BEq κ] {a b : Table κ α}

theorem Sub.none (h : Sub a b) {k : κ} (hk : b.get? k = none) : a.get? k = none := by
  cases ha : a.get? k with
  | none => rfl
  | some v => exact absurd (hk.symm.trans (h k v ha)) (Option.some_ne_none v).symm

theorem Sub.filterMap [EquivBEq κ] {β : Type w} (h : Sub a b) (ha : a.Distinct) (hb : b.Distinct)
    (f : α → Option β) : Sub (a.filterMap fun e => (f e.2).map fun x => (e.1, x))
      (b.filterMap fun e => (f e.2).map fun x => (e.1, x)) := fun k x hx => by
  rw [get?_filterMap ha] at hx
  obtain ⟨v, hv, hf⟩ := Option.bind_eq_some_iff.mp hx
  rw [get?_filterMap hb, h k v hv, Option.bind_some, hf]

theorem Sub.mem [EquivBEq κ] (h : Sub a b) (ha : a.Distinct) {k : κ} {v : α} (hv : (k, v) ∈ a) :
    ∃ k', (k', v) ∈ b := by
  obtain ⟨k', hm, -⟩ := mem_of_get? (h k v (get?_of_mem ha hv))
  exact ⟨k', hm⟩

end Table

/-! ## Sections -/

section
variable {knockout : Knockout} {context : Tree} {part : String × Tree}
  (hd : Table.Distinct part.2.entries) {k : Scalar}
include hd

theorem contains_of_sectionStep {current : Option Tree}
    (h : Table.contains (Merge.existingEntries (sectionStep knockout context current part)) k =
      true) :
    Table.contains (Merge.existingEntries current) k = true ∨
      Table.contains part.2.entries k = true := by
  rw [Table.contains, get?_sectionStep hd] at h
  split at h
  · cases hown : Table.get? part.2.entries k with
    | none =>
      rw [hown] at h
      exact .inl h
    | some t => exact .inr (Option.isSome_of_eq_some hown)
  · cases h

/-- **One more document**, with no entry that is there already, keeps the order. -/
theorem sub_sectionStep {confined free : Option Tree}
    (hsub : Table.Sub (Merge.existingEntries confined) (Merge.existingEntries free))
    (hnew : ∀ k, Table.contains part.2.entries k = true →
      Table.get? (Merge.existingEntries free) k = none) :
    Table.Sub (Merge.existingEntries (sectionStep knockout context confined part))
      (Merge.existingEntries (sectionStep knockout .null free part)) := fun k v h => by
  have hall : ∀ t, keptUnder part.1 .null (k, t) = true := fun _ => rfl
  rw [get?_sectionStep hd] at h ⊢
  by_cases hmap : part.2.isMap = true
  · rw [if_pos hmap] at h ⊢
    cases hown : Table.get? part.2.entries k with
    | none =>
      rw [hown] at h
      exact hsub k v h
    | some t =>
      -- the entry is new on both sides, so there is nothing to merge a kept value over
      have hfree := hnew k (Option.isSome_of_eq_some hown)
      rw [hown, hsub.none hfree, Option.filter_some] at h
      rw [hfree, Option.filter_some, if_pos (hall t)]
      by_cases hkept : keptUnder part.1 context (k, t) = true
      · rw [if_pos hkept] at h
        exact h
      · rw [if_neg hkept] at h
        cases h
  · rw [if_neg hmap] at h
    cases h

end

/-- The entries of a section under a context are among those without one, all of which come from
these values of the documents. -/
structure Narrower (parts : List (String × Tree)) (confined free : Mapping) : Prop where
  sub : Table.Sub confined free
  held : ∀ k, free.contains k = true → ∃ part ∈ parts, Table.contains part.2.entries k = true

/-- No two of the values have an entry of the same key. -/
def Apart (parts : List (String × Tree)) : Prop :=
  parts.Pairwise fun p q => ∀ e ∈ p.2.entries, Table.contains q.2.entries e.1 = false

/-- **All documents**: a section under a context is part of the section without one. -/
theorem narrower_sectionView (lead : Option String) (context : Tree) {parts : List (String × Tree)}
    (hd : ∀ part ∈ parts, Table.Distinct part.2.entries) (hapart : Apart parts) :
    Narrower parts (Merge.existingEntries (sectionView lead context parts))
      (Merge.existingEntries (sectionView lead .null parts)) := by
  induction parts using List.reverseRecOn with
  | nil => exact ⟨fun k v h => absurd h (Option.some_ne_none v).symm, fun k h => Bool.noConfusion h⟩
  | append_singleton parts part ih =>
    obtain ⟨hfront, -, hlast⟩ := List.pairwise_append.mp hapart
    have hbefore := ih (fun p hp => hd p (List.mem_append_left _ hp)) hfront
    have hown := hd part (List.mem_append_right _ List.mem_cons_self)
    rw [sectionView_concat, sectionView_concat]
    refine ⟨sub_sectionStep hown hbefore.sub fun k hk => ?_, fun k hk => ?_⟩
    · -- an entry of an earlier document is none of this one
      refine Option.not_isSome_iff_eq_none.mp fun hold => ?_
      obtain ⟨p, hp, hin⟩ := hbefore.held k hold
      obtain ⟨e, he, hek⟩ := Table.contains_iff.mp hin
      have hfree := hlast p hp part List.mem_cons_self e he
      rw [Table.contains, Table.get?_congr hek, ← Table.contains, hk] at hfree
      cases hfree
    · rcases contains_of_sectionStep hown hk with hold | hnew
      · obtain ⟨p, hp, hin⟩ := hbefore.held k hold
        exact ⟨p, List.mem_append_left _ hp, hin⟩
      · exact ⟨part, List.mem_append_right _ List.mem_cons_self, hnew⟩

/-- **No two documents define the same entry** of a section that may be confined. -/
def EntriesApart (corpus : Corpus) : Prop :=
  corpus.parts.Pairwise fun a b => ∀ name ∈ confinedSections, ∀ e ∈ mappingAt a.2 name,
    Table.contains (mappingAt b.2 name) e.1 = false

section
variable {corpus : Corpus} (hd : ∀ part ∈ corpus.parts, Throughout DistinctNode (.map part.2))
include hd

theorem apart_heldSections (hapart : EntriesApart corpus) {name : String}
    (hname : name ∈ confinedSections) : Apart (heldSections corpus (.str name)) := by
  rw [heldSections_eq_filterMap fun part hpart => (hd part hpart).here]
  refine List.Pairwise.filterMap _ (fun a b hab p hp q hq => ?_) hapart
  obtain ⟨t, ht, rfl⟩ := Option.map_eq_some_iff.mp hp
  obtain ⟨u, hu, rfl⟩ := Option.map_eq_some_iff.mp hq
  have hentries : ∀ {m : Mapping} {t : Tree}, Table.get? m (.str name) = some t →
      mappingAt m name = t.entries := fun {m t} h => by
    rw [mappingAt_eq_existingEntries, h]
    cases t <;> rfl
  have hone := hab name hname
  rwa [hentries ht, hentries hu] at hone

/-- **A section under a context is part of the section without one.** -/
theorem sub_mappingAt (hapart : EntriesApart corpus) (lead : Option String) (context : Tree)
    (name : String) (hname : name ∈ confinedSections) :
    Table.Sub (mappingAt (confinedView corpus (.ofPrefix lead) context) name)
      (mappingAt (confinedView corpus (.ofPrefix lead) .null) name) := by
  rw [mappingAt_eq_existingEntries, mappingAt_eq_existingEntries, get?_confinedView,
    get?_confinedView]
  exact (narrower_sectionView lead context (fun _ h => distinct_heldSections hd h)
    (apart_heldSections hd hapart hname)).sub

end

/-! ## The index -/

/-- What the first index lists under a key, the second lists there too. -/
structure CheckMap.Sub (i j : CheckMap) : Prop where
  checks : ∀ k, (i.checks.get? k).getD [] ⊆ (j.checks.get? k).getD []
  controls : ∀ k, (i.controls.get? k).getD [] ⊆ (j.controls.get? k).getD []
  ces : ∀ k, (i.ces.get? k).getD [] ⊆ (j.ces.get? k).getD []

theorem field?_of_mem_knownCes {ces body : Mapping} {name : String}
    (h : name ∈ knownCes ces body) : ∃ ce, Tree.field? ces name = some ce := by
  rw [knownCes_eq] at h
  obtain ⟨item, -, hitem⟩ := List.mem_filterMap.mp h
  exact Option.isSome_iff_exists.mp (Option.filter_eq_some_iff.mp hitem).2

section
variable {ces ces' : Mapping} (hces : Table.Sub ces ces')
include hces

theorem knownCes_sub (body : Mapping) : knownCes ces body ⊆ knownCes ces' body := fun name h => by
  rw [knownCes_eq] at h ⊢
  obtain ⟨item, hin, hitem⟩ := List.mem_filterMap.mp h
  obtain ⟨htext, hthere⟩ := Option.filter_eq_some_iff.mp hitem
  obtain ⟨ce, hce⟩ := Option.isSome_iff_exists.mp hthere
  exact List.mem_filterMap.mpr ⟨item, hin,
    Option.filter_eq_some_iff.mpr ⟨htext, Option.isSome_of_eq_some (hces _ ce hce)⟩⟩

theorem controls_sub (body : Mapping) :
    controlsOn body ++ (knownCes ces body).flatMap (ceControlsOn ces) ⊆
      controlsOn body ++ (knownCes ces' body).flatMap (ceControlsOn ces') := fun control h => by
  rcases List.mem_append.mp h with hown | hce
  · exact List.mem_append_left _ hown
  · obtain ⟨name, hname, hcontrol⟩ := List.mem_flatMap.mp hce
    obtain ⟨ce, hfield⟩ := field?_of_mem_knownCes hname
    have hsame : ceControlsOn ces' name = ceControlsOn ces name := by
      have hfield' : Tree.field? ces' name = some ce := hces _ ce hfield
      rw [ceControlsOn, ceControlsOn, hfield, hfield']
    exact List.mem_append_right _
      (List.mem_flatMap.mpr ⟨name, knownCes_sub hces body hname, hsame ▸ hcontrol⟩)

/-- **The index of fewer checks and CEs** lists less. -/
theorem sub_addAll {checks checks' : Table Scalar UsableCheck} (hc : checks.Distinct)
    (hc' : checks'.Distinct) (hsub : Table.Sub checks checks') :
    CheckMap.Sub (addAll ces {} checks) (addAll ces' {} checks') where
  checks k check h := (mem_checks hc').mpr (hsub k check ((mem_checks hc).mp h))
  controls k check h := by
    obtain ⟨e, he, rfl, control, hin, hk⟩ := mem_controls.mp h
    obtain ⟨name, he'⟩ := hsub.mem hc he
    exact mem_controls.mpr ⟨_, he', rfl, control, controls_sub hces _ hin, hk⟩
  ces k check h := by
    obtain ⟨e, he, rfl, key, hin, hk⟩ := mem_ces.mp h
    obtain ⟨name, he'⟩ := hsub.mem hc he
    exact mem_ces.mpr ⟨_, he', rfl, key, List.map_subset _ (knownCes_sub hces _) hin, hk⟩

end

/-- No key of the index has an empty list. -/
def Filled (index : Table Scalar (List UsableCheck)) : Prop := ∀ e ∈ index, e.2 ≠ []

theorem Filled.insert {index : Table Scalar (List UsableCheck)} (h : Filled index) (k : Scalar)
    {listed : List UsableCheck} (hne : listed ≠ []) :
    Filled (index.insert k listed) := fun e he => by
  rcases Table.mem_insert he with hold | ⟨hnew, -⟩
  · exact h e hold
  · exact hnew ▸ hne

theorem Filled.listUnder {γ : Type} {index : Table Scalar (List UsableCheck)} (h : Filled index)
    (keyOf : γ → Scalar) (check : UsableCheck) (keys : List γ) :
    Filled (keys.foldl (fun t k => Compliance.listUnder t (keyOf k) check) index) :=
  List.foldlRecOn keys _ h fun _ ht k _ => ht.insert (keyOf k) (by simp)

theorem filled_addAll (ces : Mapping) (checks : List (Scalar × UsableCheck)) :
    Filled (addAll ces {} checks).checks ∧ Filled (addAll ces {} checks).controls ∧
      Filled (addAll ces {} checks).ces := by
  have hnil : Filled [] := fun _ he => absurd he List.not_mem_nil
  refine List.foldlRecOn
    (motive := fun i : CheckMap => Filled i.checks ∧ Filled i.controls ∧ Filled i.ces)
    checks _ ⟨hnil, hnil, hnil⟩ fun index ⟨hchecks, hcontrols, hces⟩ e _ => ?_
  exact ⟨hchecks.insert _ (List.cons_ne_nil _ _), hcontrols.listUnder id e.2 _,
    hces.listUnder Scalar.str e.2 _⟩

theorem contains_of_subset {i j : Table Scalar (List UsableCheck)} (hi : Filled i) {k : Scalar}
    (hsub : (i.get? k).getD [] ⊆ (j.get? k).getD []) (h : i.contains k = true) :
    j.contains k = true := by
  obtain ⟨listed, hl⟩ := Option.isSome_iff_exists.mp h
  obtain ⟨k', hm, -⟩ := Table.mem_of_get? hl
  obtain ⟨check, rest, rfl⟩ := List.exists_cons_of_ne_nil (hi _ hm)
  have hin : check ∈ (j.get? k).getD [] := hsub (by rw [hl]; exact List.mem_cons_self)
  unfold Table.contains
  cases hj : j.get? k with
  | some _ => rfl
  | none =>
    rw [hj] at hin
    cases hin

/-! ## The checks of a profile -/

theorem sub_referenced {i j : Table Scalar (List UsableCheck)}
    (h : ∀ k, (i.get? k).getD [] ⊆ (j.get? k).getD []) (body : Mapping) (field : String) :
    referenced body field i ⊆ referenced body field j := fun check hin => by
  obtain ⟨e, he, hset, hlisted⟩ := mem_referenced.mp hin
  exact mem_referenced.mpr ⟨e, he, hset, h e.1 hlisted⟩

theorem referenced_nil (field : String) (index : Table Scalar (List UsableCheck)) :
    referenced [] field index = [] := rfl

/-- **A profile pulls in fewer checks** from fewer profiles and an index that lists less. -/
theorem sub_profileChecks {merged free : Mapping} {i j : CheckMap}
    (hprofiles : Table.Sub (mappingAt merged "profiles") (mappingAt free "profiles"))
    (h : CheckMap.Sub i j) (profile : Scalar) :
    profileChecks merged i profile ⊆ profileChecks free j profile := by
  unfold profileChecks
  rw [profileBody_eq, profileBody_eq, profileMapping]
  split
  · rename_i body hbody
    have hfree : profileMapping free profile = body := by
      rw [profileMapping, hprofiles _ _ hbody]
    rw [hfree]
    have hchecks := sub_referenced h.checks body "checks"
    have hcontrols := sub_referenced h.controls body "controls"
    have hces := sub_referenced h.ces body "ces"
    intro check hin
    simp only [List.mem_append] at hin ⊢
    exact hin.imp (Or.imp (@hchecks check) (@hcontrols check)) (@hces check)
  · simp only [referenced_nil, List.append_nil, List.nil_subset]

/-! ## Compilation -/

section
variable {corpus : Corpus} (hd : ∀ part ∈ corpus.parts, Throughout DistinctNode (.map part.2))
  (hapart : EntriesApart corpus) (lead : Option String) (checkType : String) (context : Tree)
include hd hapart

theorem sub_buildCheckMap :
    CheckMap.Sub
      (buildCheckMap checkType (confinedView corpus (.ofPrefix lead) context) context).1
      (buildCheckMap checkType (confinedView corpus (.ofPrefix lead) .null) .null).1 := by
  have hdistinct : ∀ c,
      Table.Distinct (mappingAt (confinedView corpus (.ofPrefix lead) c) "checks") :=
    fun c => (distinctNode_confinedView corpus _ c "checks").here
  have hchecks := sub_mappingAt hd hapart lead context "checks" (by decide)
  have hces := sub_mappingAt hd hapart lead context "ce" (by decide)
  rw [buildCheckMap_eq, buildCheckMap_eq, ← addAll, ← addAll]
  exact sub_addAll hces (distinct_usableChecks (hdistinct context) checkType)
    (distinct_usableChecks (hdistinct .null) checkType)
    (hchecks.filterMap (hdistinct context) (hdistinct .null)
      fun t => (UsableCheck.of? checkType t).toOption)

theorem pulledChecks_subset (profile : Scalar) :
    pulledChecks corpus lead checkType profile context ⊆
      pulledChecks corpus lead checkType profile .null :=
  sub_profileChecks (sub_mappingAt hd hapart lead context "profiles" (by decide))
    (sub_buildCheckMap hd hapart lead checkType context) profile

end

/-- The second index has every name, every control and every CE of the first. -/
structure CheckMap.NamesIn (i j : CheckMap) : Prop where
  checks : ∀ k, i.checks.contains k = true → j.checks.contains k = true
  controls : ∀ k, i.controls.contains k = true → j.controls.contains k = true
  ces : ∀ k, i.ces.contains k = true → j.ces.contains k = true

/-- **Confinement only removes.** If no two documents define the same entry, a context adds no
parameter to what a profile compiles to, and no name, control or CE to the index of the checks.
Checked documents compile under any context and without one. -/
theorem confinement_narrows (corpus : Corpus)
    (hd : ∀ part ∈ corpus.parts, Throughout DistinctNode (.map part.2))
    (hapart : EntriesApart corpus) (lead : Option String) (checkType : String) (profile : Scalar)
    (context : Tree) :
    (CheckedDocuments corpus → ∃ data free,
      (Compiler.compile ⟨corpus, .ofPrefix lead, checkType⟩ profile context).outcome = .ok data ∧
      (Compiler.compile ⟨corpus, .ofPrefix lead, checkType⟩ profile .null).outcome = .ok free) ∧
    (∀ data free,
      (Compiler.compile ⟨corpus, .ofPrefix lead, checkType⟩ profile context).outcome = .ok data →
      (Compiler.compile ⟨corpus, .ofPrefix lead, checkType⟩ profile .null).outcome = .ok free →
      ∀ parameter, data.contains parameter = true → free.contains parameter = true) ∧
    ∃ merged free, (mergeConfined corpus (.ofPrefix lead) context).outcome = .ok merged ∧
      (mergeConfined corpus (.ofPrefix lead) .null).outcome = .ok free ∧
      CheckMap.NamesIn (buildCheckMap checkType merged context).1
        (buildCheckMap checkType free .null).1 := by
  refine ⟨fun hchecked => ?_, fun data free hdata hfree parameter hin => ?_, _, _,
    mergeConfined_ofPrefix corpus lead context, mergeConfined_ofPrefix corpus lead .null, ?_⟩
  · obtain ⟨data, hdata⟩ := compile_total hchecked lead checkType profile context
    obtain ⟨free, hfree⟩ := compile_total hchecked lead checkType profile .null
    exact ⟨data, free, hdata, hfree⟩
  · rw [compile_outcome] at hdata hfree
    obtain ⟨setting, hsetting, hparameter⟩ := (contains_resolve hdata parameter).mp hin
    obtain ⟨check, hcheck, rfl⟩ := List.mem_map.mp hsetting
    have hpulled := pulledChecks_subset hd hapart lead checkType context profile hcheck
    exact (contains_resolve hfree parameter).mpr ⟨_, List.mem_map_of_mem hpulled, hparameter⟩
  · have hless := sub_buildCheckMap hd hapart lead checkType context
    have hfilled := filled_addAll (mappingAt (confinedView corpus (.ofPrefix lead) context) "ce")
      (usableChecks checkType (mappingAt (confinedView corpus (.ofPrefix lead) context) "checks"))
    rw [buildCheckMap_eq checkType (confinedView corpus (.ofPrefix lead) context), ← addAll]
      at hless ⊢
    exact ⟨fun k => contains_of_subset hfilled.1 (hless.checks k),
      fun k => contains_of_subset hfilled.2.1 (hless.controls k),
      fun k => contains_of_subset hfilled.2.2 (hless.ces k)⟩

/-- A check of one's own, and one that is reached by a CE of another document. -/
def confinedCe : Corpus := [
  ("a.yaml", .map [
    (.str "profiles", .map [(.str "base", .map [
      (.str "checks", .map [(.str "c", .bool true)]),
      (.str "ces", .map [(.str "e", .bool true)])])]),
    (.str "checks", .map [
      (.str "c", .map [
        (.str "type", .str "puppet-class-parameter"),
        (.str "settings", .map [(.str "parameter", .str "a"), (.str "value", .int 1)])]),
      (.str "d", .map [
        (.str "type", .str "puppet-class-parameter"),
        (.str "ces", .seq [.str "e"]),
        (.str "settings", .map [(.str "parameter", .str "b"), (.str "value", .int 2)])])])]),
  ("b.yaml", .map [(.str "ce", .map [
    (.str "e", .map [(.str "confine", .map [(.str "os", .str "RedHat")])])])])]

/-- The context leaves out the CE, and with it one of two parameters. -/
theorem confinement_narrows_ce :
    (∀ part ∈ confinedCe.parts, Throughout DistinctNode (.map part.2)) ∧ EntriesApart confinedCe ∧
    CheckedDocuments confinedCe ∧
    (Compiler.compile ⟨confinedCe, .ofPrefix none, "puppet-class-parameter"⟩ (.str "base")
      (.map [(.str "os", .str "Debian")])).outcome = .ok [("a", .int 1)] ∧
    (Compiler.compile ⟨confinedCe, .ofPrefix none, "puppet-class-parameter"⟩ (.str "base")
      .null).outcome = .ok [("a", .int 1), ("b", .int 2)] ∧
    ∀ parameter, Table.contains [("a", Tree.int 1)] parameter = true →
      Table.contains [("a", Tree.int 1), ("b", Tree.int 2)] parameter = true := by
  have hd : ∀ part ∈ confinedCe.parts, Throughout DistinctNode (.map part.2) :=
    distinct_parts (by decide)
  have hapart : EntriesApart confinedCe := by
    unfold EntriesApart
    decide
  have hchecked : CheckedDocuments confinedCe :=
    List.forall_mem_cons.mpr ⟨rfl, List.forall_mem_singleton.mpr rfl⟩
  have hnarrow := (confinement_narrows confinedCe hd hapart none "puppet-class-parameter"
    (.str "base") (.map [(.str "os", .str "Debian")])).2.1
  exact ⟨hd, hapart, hchecked, rfl, rfl, hnarrow _ _ rfl rfl⟩

end Compliance
