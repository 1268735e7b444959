import Compliance.Lint
import Compliance.Proofs.ConfinedEntries
import Compliance.Proofs.ContextCoverage
import Compliance.Proofs.LastWriter

/-! # Contexts and clauses split over documents

The contexts of a run are counted out of the merged view, but they decide about the fragments of
each document. A setting that some document names is one of the merged view, unless a later document
puts something else in the place of a mapping on the way to it. So, where no document does, no
context lacks a setting of any fragment, and none is dropped for want of one.

* `ClausePath`, `MappingsStay`: the way down to the clauses, and documents that leave it open.
* `exists_lastTouching`: a path that some layer touches has a last layer that touches it.
* `at?_merged`: a setting of a document is in the merged view.
* `contains_contexts`: so it is one of every context.
* `unmatched`, `shouldDelete_eq_unmatched`: what the contexts drop is what they do not match.
* `contexts_reach_fragments`: and this is all that merging under them drops.
-/

namespace Compliance

open Compliance.Tree (Throughout DistinctNode throughout_map mappingAt)

/-! ## Documents that leave the way to the clauses open -/

/-- A path to a section whose entries may be confined, to an entry of it, or to its clause. -/
def ClausePath (path : List Scalar) : Prop :=
  ∃ name ∈ confinedSections, path = [.str name] ∨
    ∃ entry, path = [.str name, entry] ∨ path = [.str name, entry, .str "confine"]

/-- Where a layer has a mapping on the way to a clause, no later one has anything else. -/
def MappingsStay (layers : List Mapping) : Prop :=
  layers.Pairwise fun earlier later => ∀ path, ClausePath path → ∀ t u,
    (Tree.map earlier).at? path = some t → t.isMap = true →
    (Tree.map later).at? path = some u → u.isMap = true

theorem clausePath_of_prefix {name : String} (hname : name ∈ confinedSections)
    {entry setting : Scalar} {front rest : List Scalar}
    (h : [.str name, entry, .str "confine", setting] = front ++ rest) (hfront : front ≠ [])
    (hrest : rest ≠ []) : ClausePath front := by
  refine ⟨name, hname, ?_⟩
  have hproper : front <+: [.str name, entry, .str "confine"] := by
    have hwhole : front <+: [.str name, entry, .str "confine"] ++ [setting] := ⟨rest, h.symm⟩
    refine (List.prefix_concat_iff.mp hwhole).resolve_left fun heq => hrest ?_
    rw [heq] at h
    exact List.self_eq_append_right.mp h
  simp only [List.prefix_cons_iff, List.prefix_nil] at hproper
  obtain hnil | ⟨_, rfl, rfl | ⟨_, rfl, rfl | ⟨_, rfl, rfl⟩⟩⟩ := hproper
  · exact absurd hnil hfront
  · exact .inl rfl
  · exact .inr ⟨entry, .inl rfl⟩
  · exact .inr ⟨entry, .inr rfl⟩

/-! ## Paths -/

theorem at?_append (t : Tree) (front rest : List Scalar) :
    t.at? (front ++ rest) = (t.at? front).bind fun u => u.at? rest := by
  induction front generalizing t with
  | nil => rfl
  | cons key front ih =>
    rw [List.cons_append, Tree.at?, Tree.at?]
    cases Table.get? t.entries key with
    | none => rfl
    | some u => exact ih u

theorem at?_cons {t u : Tree} {key : Scalar} (h : Table.get? t.entries key = some u)
    (path : List Scalar) : t.at? (key :: path) = u.at? path := by
  rw [Tree.at?, h]
  rfl

theorem exists_map_of_get? {t u : Tree} {key : Scalar} (h : Table.get? t.entries key = some u) :
    ∃ entries, t = .map entries := by
  cases t with
  | map entries => exact ⟨entries, rfl⟩
  | scalar s => cases h
  | seq items => cases h

theorem isMap_of_at?_append {t : Tree} {front rest : List Scalar} (hrest : rest ≠ [])
    (h : (t.at? (front ++ rest)).isSome = true) : ∃ u, t.at? front = some u ∧ u.isMap = true := by
  rw [at?_append] at h
  obtain ⟨v, hv⟩ := Option.isSome_iff_exists.mp h
  obtain ⟨u, hu, hv⟩ := Option.bind_eq_some_iff.mp hv
  refine ⟨u, hu, ?_⟩
  cases hmap : u.isMap with
  | true => rfl
  | false => rw [at?_of_isMap hmap hrest] at hv; cases hv

theorem LastTouching.touches {layers : List Mapping} {path : List Scalar} {m : Mapping}
    (h : LastTouching layers path m) : Touches (.map m) path := by
  obtain ⟨-, -, -, htouch, -⟩ := h
  exact htouch

/-- **A path that some layer touches has a last layer that touches it.** -/
theorem exists_lastTouching {layers : List Mapping} {path : List Scalar}
    (h : ∃ m ∈ layers, Touches (.map m) path) : ∃ last, LastTouching layers path last := by
  induction layers with
  | nil =>
    obtain ⟨m, hm, -⟩ := h
    cases hm
  | cons first layers ih =>
    by_cases hlater : ∃ m ∈ layers, Touches (.map m) path
    · obtain ⟨last, before, after, rfl, hlast⟩ := ih hlater
      exact ⟨last, first :: before, after, rfl, hlast⟩
    · have hnone : ∀ m ∈ layers, ¬ Touches (.map m) path := fun m hm ht => hlater ⟨m, hm, ht⟩
      obtain ⟨m, hm, ht⟩ := h
      obtain rfl := (List.mem_cons.mp hm).resolve_right fun hin => hnone m hin ht
      exact ⟨m, [], layers, rfl, ht, hnone⟩

/-! ## From a document to the merged view -/

/-- **A setting of a layer is a setting of the merged layers**, whatever its value has become. -/
theorem at?_merged {layers : List Mapping} (hd : ∀ m ∈ layers, Throughout DistinctNode (.map m))
    (hstay : MappingsStay layers) {name : String} (hname : name ∈ confinedSections)
    {entry setting : Scalar} {m : Mapping} (hm : m ∈ layers)
    (hat : ((Tree.map m).at? [.str name, entry, .str "confine", setting]).isSome = true) :
    ((Tree.map (layers.foldl (deepMerge .replace) [])).at?
      [.str name, entry, .str "confine", setting]).isSome = true := by
  have hwins := lastWriter_foldl hd (List.cons_ne_nil (.str name) [entry, .str "confine", setting])
  obtain ⟨last, hlast⟩ := exists_lastTouching ⟨m, hm, .inl hat⟩
  -- a later layer that cuts the way would have something else where `m` has a mapping
  have hopen : ¬ Cuts (.map last) [.str name, entry, .str "confine", setting] := by
    rintro ⟨front, rest, u, hpath, hfront, hrest, hu, hleaf⟩
    have hclause : ClausePath front := clausePath_of_prefix hname hpath hfront hrest
    rw [hpath] at hat
    obtain ⟨v, hv, hmap⟩ := isMap_of_at?_append hrest hat
    obtain ⟨before, after, rfl, -, hafter⟩ := hlast
    have hlater := (List.pairwise_append.mp hstay).2.2
    rcases List.mem_append.mp hm with hbefore | hrest
    · have hstays := hlater m hbefore last List.mem_cons_self front hclause v u hv hmap hu
      exact Bool.noConfusion (hstays.symm.trans hleaf)
    rcases List.mem_cons.mp hrest with rfl | hbehind
    · rw [Option.some.inj (hu.symm.trans hv), hmap] at hleaf
      cases hleaf
    · exact hafter m hbehind (.inl (hpath ▸ hat))
  obtain ⟨t, ht⟩ := Option.isSome_iff_exists.mp (hlast.touches.resolve_right hopen)
  cases hleaf : t.isMap with
  | false =>
    rw [hwins.value last t hlast ht hleaf]
    rfl
  | true =>
    obtain ⟨u, hu, -⟩ := hwins.mapping last t hlast ht hleaf
    rw [hu]
    rfl

theorem at?_setting {m : Mapping} (hd : Throughout DistinctNode (.map m)) {name : String}
    {e : Scalar × Tree} (he : e ∈ mappingAt m name) {confine : Mapping}
    (hc : clause? e = some confine) {setting : Scalar × Tree} (hs : setting ∈ confine) :
    (Tree.map m).at? [.str name, e.1, .str "confine", setting.1] = some setting.2 := by
  have hsection : Table.get? (Tree.map m).entries (.str name) = some (.map (mappingAt m name)) :=
    Tree.field?_of_mem_mappingAt he
  have hdsection : Throughout DistinctNode (.map (mappingAt m name)) :=
    Tree.distinct_mappingAt hd name
  have hentry : Table.get? (Tree.map (mappingAt m name)).entries e.1 = some e.2 :=
    Table.get?_of_mem hdsection.here he
  have hdentry : Throughout DistinctNode e.2 := (throughout_map.mp hdsection).2 e he
  have hclause : Table.get? e.2.entries (.str "confine") = some (.map confine) :=
    Tree.mapField?_eq_some.mp hc
  have hdclause : Throughout DistinctNode (.map confine) :=
    (Tree.distinct_entries hdentry).get? hclause
  have hsetting : Table.get? (Tree.map confine).entries setting.1 = some setting.2 :=
    Table.get?_of_mem hdclause.here hs
  rw [at?_cons hsection, at?_cons hentry, at?_cons hclause, at?_cons hsetting]
  rfl

theorem exists_setting_of_at? {m : Mapping} {name : String} {entry setting : Scalar}
    (h : ((Tree.map m).at? [.str name, entry, .str "confine", setting]).isSome = true) :
    ∃ e ∈ mappingAt m name, ∃ confine, clause? e = some confine ∧
      confine.contains setting = true := by
  obtain ⟨t, ht⟩ := Option.isSome_iff_exists.mp h
  obtain ⟨section_, hsection, ht⟩ := Option.bind_eq_some_iff.mp ht
  obtain ⟨body, hentry, ht⟩ := Option.bind_eq_some_iff.mp ht
  obtain ⟨clause, hclause, ht⟩ := Option.bind_eq_some_iff.mp ht
  obtain ⟨value, hvalue, -⟩ := Option.bind_eq_some_iff.mp ht
  obtain ⟨entries, rfl⟩ := exists_map_of_get? hentry
  obtain ⟨confine, rfl⟩ := exists_map_of_get? hvalue
  obtain ⟨key, hin, -⟩ := Table.mem_of_get? hentry
  have hfield : Tree.mapField? m name = some entries := Tree.mapField?_eq_some.mpr hsection
  have hat : mappingAt m name = entries := by
    rw [mappingAt, hfield]
    rfl
  refine ⟨(key, body), hat ▸ hin, confine, Tree.mapField?_eq_some.mpr hclause, ?_⟩
  rw [Table.contains, show Table.get? confine setting = some value from hvalue]
  rfl

/-! ## From the merged view to the contexts -/

theorem Lint.merged?_getD (l : Lint) : l.merged?.getD [] = l.corpus.merged := by
  unfold Lint.merged?
  split
  · rename_i hempty
    rw [List.isEmpty_iff.mp hempty]
    rfl
  · rfl

theorem mem_confinable {merged : Mapping} {name : String} (hname : name ∈ confinedSections)
    {e : Scalar × Tree} (he : e ∈ mappingAt merged name) : e ∈ confinable merged := by
  simp only [confinedSections, List.mem_cons, List.not_mem_nil, or_false] at hname
  simp only [confinable, List.mem_append]
  rcases hname with rfl | rfl | rfl
  · exact .inl (.inl he)
  · exact .inl (.inr he)
  · exact .inr he

section
variable {l : Lint} (hd : ∀ part ∈ l.corpus.parts, Throughout DistinctNode (.map part.2))
  (hstay : MappingsStay (l.corpus.parts.map (·.2))) {context : Mapping}
  (hcontext : context ∈ l.contexts) {part : String × Mapping} (hpart : part ∈ l.corpus.parts)
  {name : String} (hname : name ∈ confinedSections)
include hd hstay hcontext hpart hname

/-- **A setting of a document is one of every context.** -/
theorem contains_contexts {e : Scalar × Tree} (he : e ∈ mappingAt part.2 name) {confine : Mapping}
    (hc : clause? e = some confine) {setting : Scalar × Tree} (hs : setting ∈ confine) :
    context.contains setting.1 = true := by
  have hlayers : ∀ m ∈ l.corpus.parts.map (·.2), Throughout DistinctNode (.map m) := fun m hm => by
    obtain ⟨p, hp, rfl⟩ := List.mem_map.mp hm
    exact hd p hp
  have hown : ((Tree.map part.2).at? [.str name, e.1, .str "confine", setting.1]).isSome = true :=
    Option.isSome_of_eq_some (at?_setting (hd part hpart) he hc hs)
  have hmerged := at?_merged hlayers hstay hname (List.mem_map_of_mem hpart) hown
  obtain ⟨found, hfound, clause, hclause, hcontains⟩ := exists_setting_of_at? hmerged
  rw [← Corpus.merged_eq, ← Lint.merged?_getD] at hfound
  rw [contains_of_mem_expandConfines hcontext, collectConfines_eq, contains_foldl_insertAll,
    Bool.or_eq_true, List.any_eq_true]
  exact .inr ⟨clause, List.mem_filterMap.mpr ⟨found, mem_confinable hname hfound, hclause⟩,
    hcontains⟩

end

/-! ## From the contexts to the fragments -/

/-- A value that the context has for the setting is among the allowed ones. -/
def matched (context : Mapping) (setting : Scalar × Tree) : Bool :=
  (context.get? setting.1).any fun actual => Confine.matchesSetting actual setting.2

/-- The clause of the entry is a mapping, and the context matches none of its settings. -/
def unmatched (context : Mapping) (e : Scalar × Tree) : Bool :=
  (clause? e).any fun confine => confine.all fun setting => !matched context setting

theorem matched_iff {context : Mapping} {setting : Scalar × Tree} :
    matched context setting = true ↔ Confine.Matches context setting := by
  simp only [matched, Option.any_eq_true, Confine.matchesSetting_iff, Confine.Matches]

/-- **Where no setting is missing, an entry is dropped exactly if it is unmatched.** -/
theorem shouldDelete_eq_unmatched {context : Mapping} {e : Scalar × Tree}
    (h : ∀ confine, clause? e = some confine →
      ∀ setting ∈ confine, context.contains setting.1 = true) (file : String) :
    (shouldDelete file e.1 e.2 (.map context)).1 = unmatched context e := by
  cases hc : clause? e with
  | some confine =>
    have hmissing := Confine.excludes_iff (h confine hc)
    rw [shouldDelete_of_clause (Tree.mapField?_eq_some.mp hc), unmatched, hc, Option.any_some]
    refine Bool.eq_iff_iff.mpr (hmissing.trans ?_)
    simp [← matched_iff]
  | none =>
    have hno : ∀ confine, Tree.field? e.2.entries "confine" ≠ some (.map confine) :=
      fun confine heq => by
        rw [clause?, Tree.mapField?_eq_some.mpr heq] at hc
        cases hc
    rw [unmatched, hc, Option.any_none]
    unfold shouldDelete
    split
    · rfl
    · rename_i heq
      exact absurd heq (hno _)
    · rfl

/-- A value of a section without the entries that the context does not match. -/
def withoutUnmatched (context : Mapping) : Tree → Tree
  | .map entries => .map (entries.filter fun e => !unmatched context e)
  | value => value

theorem applyConfinement_eq_withoutUnmatched {context : Mapping} {value : Tree}
    (h : ∀ e ∈ value.entries, ∀ confine, clause? e = some confine →
      ∀ setting ∈ confine, context.contains setting.1 = true) (file : String) :
    (applyConfinement file value (.map context)).1 = withoutUnmatched context value := by
  cases value with
  | scalar s => exact applyConfinement_of_isMap file rfl _
  | seq items => exact applyConfinement_of_isMap file rfl _
  | map entries =>
    rw [applyConfinement_map, withoutUnmatched]
    refine congrArg Tree.map (List.filter_congr fun e he => ?_)
    exact congrArg not (shouldDelete_eq_unmatched (h e he) file)

/-- **The contexts of a run reach every fragment.** If no document puts anything else in the place
of a mapping of an earlier one on the way to a clause, a context has every setting that any document
names in a clause. So under it exactly the unmatched entries of each document are dropped, and each
of these sections is the merge of what is left of it. -/
theorem contexts_reach_fragments (l : Lint)
    (hd : ∀ part ∈ l.corpus.parts, Throughout DistinctNode (.map part.2))
    (hstay : MappingsStay (l.corpus.parts.map (·.2))) :
    ∀ context ∈ l.contexts,
      (∀ part ∈ l.corpus.parts, ∀ name ∈ confinedSections, ∀ e ∈ mappingAt part.2 name,
        (∀ confine, clause? e = some confine →
          ∀ setting ∈ confine, context.contains setting.1 = true) ∧
        (shouldDelete part.1 e.1 e.2 (.map context)).1 = unmatched context e) ∧
      (∀ lead, l.knockout = .ofPrefix lead →
        ∃ merged, (l.compiler.mergeConfined (.map context)).outcome = .ok merged) ∧
      ∀ merged, (l.compiler.mergeConfined (.map context)).outcome = .ok merged →
        ∀ name ∈ confinedSections, merged.get? (.str name) =
          (heldSections l.corpus (.str name)).foldl (fun current held =>
            some (mergedSection l.knockout current (withoutUnmatched context held.2))) none := by
  intro context hcontext
  have hall : ∀ part ∈ l.corpus.parts, ∀ name ∈ confinedSections, ∀ e ∈ mappingAt part.2 name,
      ∀ confine, clause? e = some confine →
        ∀ setting ∈ confine, context.contains setting.1 = true :=
    fun part hpart name hname e he confine hc setting hs =>
      contains_contexts hd hstay hcontext hpart hname he hc hs
  refine ⟨fun part hpart name hname e he => ⟨hall part hpart name hname e he,
      shouldDelete_eq_unmatched (hall part hpart name hname e he) part.1⟩,
    fun lead hlead => ?_, fun merged hmerged name hname => ?_⟩
  · have hends := mergeConfined_ofPrefix l.corpus lead (.map context)
    rw [← hlead] at hends
    exact ⟨_, hends⟩
  · rw [confinedView_of_ok hmerged, confinedView, get?_foldl_viewStep, ← heldSections_eq]
    refine List.foldl_ext _ _ _ fun current held hheld => ?_
    -- what the document holds is its section, so its entries are among those reached
    obtain ⟨part, hpart, hfile, key, hin, hkey⟩ := mem_heldSections hheld
    have hsection : Table.get? part.2 (.str name) = some held.2 :=
      (Table.get?_congr hkey).symm.trans (Table.get?_of_mem (hd part hpart).here hin)
    refine congrArg (fun t => some (mergedSection l.knockout current t))
      (applyConfinement_eq_withoutUnmatched (fun e he => ?_) held.1)
    refine hall part hpart name hname e ?_
    obtain ⟨entries, hmap⟩ : ∃ entries, held.2 = .map entries := by
      cases hv : held.2 with
      | map entries => exact ⟨entries, rfl⟩
      | scalar s => rw [hv] at he; cases he
      | seq items => rw [hv] at he; cases he
    rw [hmap] at hsection he
    rw [mappingAt, Tree.mapField?_eq_some.mpr hsection]
    exact he

/-- There are only mappings down to a depth. -/
def mapsDownTo : Nat → Tree → Bool
  | 0, t => t.isMap
  | n + 1, t => t.isMap && t.entries.all fun e => mapsDownTo n e.2

theorem isMap_of_mapsDownTo : ∀ {n : Nat} {t u : Tree} {path : List Scalar},
    mapsDownTo n t = true → path.length ≤ n → t.at? path = some u → u.isMap = true
  | 0, t, u, [], h, _, hu => Option.some.inj hu ▸ h
  | n + 1, t, u, [], h, _, hu => by
    rw [mapsDownTo, Bool.and_eq_true] at h
    exact Option.some.inj hu ▸ h.1
  | n + 1, t, u, key :: path, h, hlen, hu => by
    rw [mapsDownTo, Bool.and_eq_true, List.all_eq_true] at h
    obtain ⟨v, hv, hu⟩ := Option.bind_eq_some_iff.mp hu
    obtain ⟨k, hin, -⟩ := Table.mem_of_get? hv
    exact isMap_of_mapsDownTo (h.2 _ hin) (Nat.le_of_succ_le_succ hlen) hu

theorem ClausePath.length_le {path : List Scalar} (h : ClausePath path) : path.length ≤ 3 := by
  obtain ⟨name, -, rfl | ⟨entry, rfl | rfl⟩⟩ := h <;> simp

/-- An entry with a clause and nothing else. -/
def clauseOnly (clause : Mapping) : Tree := .map [(.str "confine", .map clause)]

/-- A clause split over two documents, and another profile that lays its operating system over. -/
def splitClause : Corpus := [
  ("a.yaml", .map [(.str "profiles", .map [
    (.str "base", clauseOnly [(.str "os", .str "RedHat")])])]),
  ("b.yaml", .map [(.str "profiles", .map [
    (.str "base", clauseOnly [(.str "release", .seq [.str "7", .str "8"])]),
    (.str "web", clauseOnly [(.str "os", .str "Debian")])])])]

def splitContext : Mapping := [(.str "os", .str "Debian"), (.str "release", .str "7")]

/-- The first fragment of the profile is dropped, for nothing in it matches; the second is kept. -/
theorem contexts_reach_fragments_split :
    (∀ part ∈ splitClause.parts, Throughout DistinctNode (.map part.2)) ∧
    MappingsStay (splitClause.parts.map (·.2)) ∧
    splitContext ∈ (Lint.mk splitClause (.ofPrefix none)).contexts ∧
    (shouldDelete "a.yaml" (.str "base") (clauseOnly [(.str "os", .str "RedHat")])
      (.map splitContext)).1 = true ∧
    (shouldDelete "b.yaml" (.str "base")
      (clauseOnly [(.str "release", .seq [.str "7", .str "8"])])
      (.map splitContext)).1 = false := by
  have hd : ∀ part ∈ splitClause.parts, Throughout DistinctNode (.map part.2) :=
    distinct_parts (by decide)
  have hstay : MappingsStay (splitClause.parts.map (·.2)) := by
    refine List.pairwise_pair.mpr fun path hpath t u _ _ hu => ?_
    exact isMap_of_mapsDownTo (n := 3) (by decide) hpath.length_le hu
  have hcontext : splitContext ∈ (Lint.mk splitClause (.ofPrefix none)).contexts := by
    have hcontexts : (Lint.mk splitClause (.ofPrefix none)).contexts =
      [splitContext, [(.str "os", .str "Debian"), (.str "release", .str "8")]] := rfl
    rw [hcontexts]
    exact List.mem_cons_self
  have hreach := (contexts_reach_fragments _ hd hstay _ hcontext).1
  have hfirst := (hreach _ List.mem_cons_self "profiles" (by decide) _ List.mem_cons_self).2
  have hsecond := (hreach _ (List.mem_cons_of_mem _ List.mem_cons_self) "profiles" (by decide) _
    List.mem_cons_self).2
  exact ⟨hd, hstay, hcontext, hfirst, hsecond⟩

end Compliance
