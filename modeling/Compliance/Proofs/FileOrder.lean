import Compliance.Proofs.ConfinedView
import Compliance.Proofs.LastWriter
import Compliance.Proofs.TwinClasses
import Compliance.Proofs.ContextCoverage

/-! # Documents that do not overlap

Where two documents both have something to say, the later one wins. Where they overlap in mappings
only, nothing is to be won, and they can be merged in either order: the results have the same nodes
at the same paths, and differ at most in the order of keys, which no comparison sees.

* `Compatible`: two mappings that overlap in mappings only.
* `Tree.AgreeAt`, `Tree.Rearranged`: the same node at a path, and at every path.
* `OrderFree`: a way of merging values that agrees with itself in either order, up to a path.
* `layEntries_congr`, `layEntries_swap`: then entries merged in this way do so one key further.
* `rearranged_foldl`: so do all layers, however they are permuted.
* `alike_of_rearranged`: trees with the same nodes count as the same.
* `merged_perm`: the merged view and the merged data do not depend on the order of such documents.
-/

namespace Compliance

open Compliance.Tree (DistinctNode KeysDistinct Throughout throughout_map alike alikeEntries
  alikeEntries_iff)

/-! ## The same nodes at the same paths -/

namespace Tree

/-- The tree without the entries of a mapping. -/
def outline : Tree → Tree
  | .map _ => .map []
  | t => t

/-- There is nothing at the path in both, or the same value, or a mapping in each. -/
def AgreeAt (path : List Scalar) (c c' : Option Tree) : Prop :=
  (c.bind fun t => t.at? path).map outline = (c'.bind fun t => t.at? path).map outline

/-- The same nodes at the same paths; the keys of a mapping may come in any order. -/
def Rearranged (c c' : Option Tree) : Prop := ∀ path, AgreeAt path c c'

theorem Rearranged.refl (c : Option Tree) : Rearranged c c := fun _ => rfl

theorem Rearranged.trans {a b c : Option Tree} (h : Rearranged a b) (k : Rearranged b c) :
    Rearranged a c := fun path => (h path).trans (k path)

/-- Below a mapping, the nodes of its values. -/
theorem agreeAt_cons {m m' : Mapping} {key : Scalar} {path : List Scalar} :
    AgreeAt (key :: path) (some (.map m)) (some (.map m')) ↔
      AgreeAt path (Table.get? m key) (Table.get? m' key) := Iff.rfl

theorem Rearranged.get? {m m' : Mapping} (h : Rearranged (some (.map m)) (some (.map m')))
    (key : Scalar) : Rearranged (Table.get? m key) (Table.get? m' key) :=
  fun path => agreeAt_cons.mp (h (key :: path))

/-- **Both are nothing, or the same value, or a mapping each.** -/
theorem Rearranged.cases {c c' : Option Tree} (h : Rearranged c c') :
    c = c' ∨ ∃ m m', c = some (.map m) ∧ c' = some (.map m') := by
  have hhere : (c.bind some).map outline = (c'.bind some).map outline := h []
  cases c with
  | none =>
    cases c' with
    | none => exact .inl rfl
    | some t' => cases hhere
  | some t =>
    cases c' with
    | none => cases hhere
    | some t' =>
      have hsame : outline t = outline t' := Option.some.inj hhere
      cases t with
      | map m => cases t' with
        | map m' => exact .inr ⟨m, m', rfl, rfl⟩
        | scalar | seq => cases hsame
      | scalar s => cases t' with
        | map m' => cases hsame
        | scalar | seq => exact .inl (congrArg some hsame)
      | seq items => cases t' with
        | map m' => cases hsame
        | scalar | seq => exact .inl (congrArg some hsame)

end Tree

open Compliance.Tree (AgreeAt Rearranged agreeAt_cons)

theorem Merge.rearranged_existingEntries {c c' : Option Tree} (h : Rearranged c c') :
    Rearranged (some (.map (existingEntries c))) (some (.map (existingEntries c'))) := by
  rcases h.cases with rfl | ⟨m, m', rfl, rfl⟩
  · exact .refl _
  · exact h

theorem Merge.existingItems_congr {c c' : Option Tree} (h : Rearranged c c') :
    existingItems c = existingItems c' := by
  rcases h.cases with rfl | ⟨m, m', rfl, rfl⟩ <;> rfl

/-! ## Mappings that overlap in mappings only -/

/-- Where both mappings have a node at a path, both have a mapping there. -/
def Compatible (a b : Mapping) : Prop :=
  ∀ path t u, path ≠ [] → (Tree.map a).at? path = some t → (Tree.map b).at? path = some u →
    t.isMap = true ∧ u.isMap = true

theorem Compatible.symm {a b : Mapping} (h : Compatible a b) : Compatible b a :=
  fun path t u hp ht hu => (h path u t hp hu ht).symm

/-- What stands under a common key are mappings, and these overlap in mappings only. -/
theorem Compatible.get? {a b : Mapping} (h : Compatible a b) {key : Scalar} {t u : Tree}
    (ht : Table.get? a key = some t) (hu : Table.get? b key = some u) :
    ∃ a' b', t = .map a' ∧ u = .map b' ∧ Compatible a' b' := by
  have hat : ∀ {m : Mapping} {v : Tree} (path : List Scalar), Table.get? m key = some v →
      (Tree.map m).at? (key :: path) = v.at? path := fun {m v} path hv => by
    rw [Tree.at?, Tree.entries, hv]
    rfl
  obtain ⟨htmap, humap⟩ := h [key] t u (List.cons_ne_nil _ _) (hat [] ht) (hat [] hu)
  cases t with
  | map a' =>
    cases u with
    | map b' =>
      refine ⟨a', b', rfl, rfl, fun path v w _ hv hw => ?_⟩
      exact h (key :: path) v w (List.cons_ne_nil _ _) ((hat path ht).trans hv)
        ((hat path hu).trans hw)
    | scalar | seq => cases humap
  | scalar | seq => cases htmap

theorem compatible_of_entries {a b : Mapping} (h : ∀ e ∈ a, ∀ u, Table.get? b e.1 = some u →
    ∃ a' b', e.2 = .map a' ∧ u = .map b' ∧ Compatible a' b') : Compatible a b := by
  intro path t u hp ht hu
  obtain ⟨key, path, rfl⟩ := List.exists_cons_of_ne_nil hp
  obtain ⟨v, hv, ht⟩ := Option.bind_eq_some_iff.mp ht
  obtain ⟨w, hw, hu⟩ := Option.bind_eq_some_iff.mp hu
  obtain ⟨own, hown, hkey⟩ := Table.mem_of_get? hv
  obtain ⟨a', b', rfl, rfl, hbelow⟩ := h _ hown w ((Table.get?_congr hkey).trans hw)
  by_cases hend : path = []
  · subst hend
    exact ⟨Option.some.inj ht ▸ rfl, Option.some.inj hu ▸ rfl⟩
  · exact hbelow path t u hend ht hu

/-! ## Merging in either order -/

/-- Up to a path, a way of merging values that does not look at the order of keys, and for which
mappings that overlap in mappings only can come in either order. -/
structure OrderFree (f : Option Tree → Tree → Option Tree) (path : List Scalar) : Prop where
  congr : ∀ {value : Tree} {c c' : Option Tree}, Throughout DistinctNode value →
    Rearranged c c' → AgreeAt path (f c value) (f c' value)
  swap : ∀ {a b : Mapping} (c : Option Tree), Throughout DistinctNode (.map a) →
    Throughout DistinctNode (.map b) → Compatible a b →
    AgreeAt path (f (f c (.map a)) (.map b)) (f (f c (.map b)) (.map a))

section
variable {f : Option Tree → Tree → Option Tree} {path : List Scalar}

theorem layEntries_congr (h : OrderFree f path) {entries m m' : Mapping}
    (hd : Throughout DistinctNode (.map entries))
    (hm : Rearranged (some (.map m)) (some (.map m'))) (key : Scalar) :
    AgreeAt (key :: path) (some (.map (layEntries f m entries)))
      (some (.map (layEntries f m' entries))) := by
  obtain ⟨hkeys, hbelow⟩ := throughout_map.mp hd
  rw [agreeAt_cons, get?_layEntries hkeys, get?_layEntries hkeys]
  cases hget : Table.get? entries key with
  | none => exact hm.get? key path
  | some value => exact h.congr (hd.get? hget) (hm.get? key)

/-- **Mappings that overlap in mappings only, laid in either order.** A key of one of them only is
not touched by the other, and under a common key both have mappings. -/
theorem layEntries_swap (h : OrderFree f path) {a b : Mapping}
    (ha : Throughout DistinctNode (.map a)) (hb : Throughout DistinctNode (.map b))
    (hfit : Compatible a b) (m : Mapping) (key : Scalar) :
    AgreeAt (key :: path) (some (.map (layEntries f (layEntries f m a) b)))
      (some (.map (layEntries f (layEntries f m b) a))) := by
  have hkeysA := (throughout_map.mp ha).1
  have hkeysB := (throughout_map.mp hb).1
  rw [agreeAt_cons, get?_layEntries hkeysB, get?_layEntries hkeysA, get?_layEntries hkeysA,
    get?_layEntries hkeysB]
  cases hgetA : Table.get? a key with
  | none =>
    cases hgetB : Table.get? b key with
    | none => rfl
    | some u => rfl
  | some t =>
    cases hgetB : Table.get? b key with
    | none => rfl
    | some u =>
      obtain ⟨a', b', rfl, rfl, hbelow⟩ := hfit.get? hgetA hgetB
      exact h.swap _ (ha.get? hgetA) (hb.get? hgetB) hbelow

end

theorem mergeValue_off_map (union : Bool) (current : Option Tree) (m : Mapping) :
    mergeValue ⟨union, .off⟩ current (.map m) =
      some (.map (layEntries (mergeValue ⟨union, .off⟩) (Merge.existingEntries current) m)) := by
  rw [← deepMerge_eq_layEntries, mergeValue]
  rfl

/-- A value that is no mapping makes the same of what is there in any order of keys. -/
theorem rearranged_mergeValue_leaf (union : Bool) {value : Tree} (hleaf : value.isMap = false)
    {c c' : Option Tree} (h : Rearranged c c') :
    Rearranged (mergeValue ⟨union, .off⟩ c value) (mergeValue ⟨union, .off⟩ c' value) := by
  cases value with
  | map entries => cases hleaf
  | seq items =>
    rw [mergeValue, mergeValue, Merge.existingItems_congr h]
    exact .refl _
  | scalar s =>
    rw [mergeValue, mergeValue]
    simp only [Knockout.removes, Bool.false_eq_true, if_false]
    split
    · -- a null leaves what is there
      rcases h.cases with rfl | ⟨m, m', rfl, rfl⟩
      · exact .refl _
      · exact h
    · exact .refl _

/-- **Merging without a marker is free of order**, by recursion on the path. -/
theorem orderFree_mergeValue (union : Bool) (path : List Scalar) :
    OrderFree (mergeValue ⟨union, .off⟩) path := by
  induction path with
  | nil =>
    refine ⟨fun {value c c'} _ h => ?_, fun c _ _ _ => ?_⟩
    · cases value with
      | map entries => rw [mergeValue_off_map, mergeValue_off_map]; rfl
      | scalar | seq => exact rearranged_mergeValue_leaf union rfl h []
    · simp only [mergeValue_off_map]
      rfl
  | cons key path ih =>
    refine ⟨fun {value c c'} hd h => ?_, fun c ha hb hfit => ?_⟩
    · cases value with
      | map entries =>
        rw [mergeValue_off_map, mergeValue_off_map]
        exact layEntries_congr ih hd (Merge.rearranged_existingEntries h) key
      | scalar | seq => exact rearranged_mergeValue_leaf union rfl h (key :: path)
    · simp only [mergeValue_off_map]
      exact layEntries_swap ih ha hb hfit _ key

theorem mergedSection_off (current : Option Tree) (value : Tree) :
    some (mergedSection .off current (applyConfinement "" value .null).1) =
      if value.isMap then mergeValue ⟨true, .off⟩ current value else some value := by
  cases value with
  | map entries =>
    rw [mergeValue_off_map, ← deepMerge_eq_layEntries]
    rfl
  | scalar s => rfl
  | seq items => rfl

/-- **So is laying whole documents**, whose sections are replaced unless they are mappings. -/
theorem orderFree_mergedSection (path : List Scalar) :
    OrderFree (fun current value =>
      some (mergedSection .off current (applyConfinement "" value .null).1)) path := by
  have h := orderFree_mergeValue true path
  refine ⟨fun {value c c'} hd hc => ?_, fun c ha hb hfit => ?_⟩
  · rw [mergedSection_off, mergedSection_off]
    split
    · exact h.congr hd hc
    · rfl
  · simp only [mergedSection_off, Tree.isMap, if_true]
    exact h.swap c ha hb hfit

/-! ## All layers -/

section
variable {f : Option Tree → Tree → Option Tree} (hf : ∀ path, OrderFree f path)
include hf

theorem rearranged_layEntries {layer m m' : Mapping} (hd : Throughout DistinctNode (.map layer))
    (hm : Rearranged (some (.map m)) (some (.map m'))) :
    Rearranged (some (.map (layEntries f m layer))) (some (.map (layEntries f m' layer)))
  | [] => rfl
  | key :: path => layEntries_congr (hf path) hd hm key

theorem rearranged_swap {a b : Mapping} (ha : Throughout DistinctNode (.map a))
    (hb : Throughout DistinctNode (.map b)) (hfit : Compatible a b) (m : Mapping) :
    Rearranged (some (.map (layEntries f (layEntries f m a) b)))
      (some (.map (layEntries f (layEntries f m b) a)))
  | [] => rfl
  | key :: path => layEntries_swap (hf path) ha hb hfit m key

theorem rearranged_foldl_congr {layers : List Mapping}
    (hd : ∀ m ∈ layers, Throughout DistinctNode (.map m)) {m m' : Mapping}
    (hm : Rearranged (some (.map m)) (some (.map m'))) :
    Rearranged (some (.map (layers.foldl (layEntries f) m)))
      (some (.map (layers.foldl (layEntries f) m'))) := by
  induction layers generalizing m m' with
  | nil => exact hm
  | cons layer layers ih =>
    obtain ⟨hlayer, hrest⟩ := List.forall_mem_cons.mp hd
    exact ih hrest (rearranged_layEntries hf hlayer hm)

/-- **Layers that overlap in mappings only can be permuted.** -/
theorem rearranged_foldl {layers others : List Mapping} (hperm : layers.Perm others)
    (hd : ∀ m ∈ layers, Throughout DistinctNode (.map m)) (hfit : layers.Pairwise Compatible)
    {m m' : Mapping} (hm : Rearranged (some (.map m)) (some (.map m'))) :
    Rearranged (some (.map (layers.foldl (layEntries f) m)))
      (some (.map (others.foldl (layEntries f) m'))) := by
  induction hperm generalizing m m' with
  | nil => exact hm
  | cons a _ ih =>
    obtain ⟨ha, hrest⟩ := List.forall_mem_cons.mp hd
    exact ih hrest hfit.of_cons (rearranged_layEntries hf ha hm)
  | swap a b rest =>
    obtain ⟨hb, harest⟩ := List.forall_mem_cons.mp hd
    obtain ⟨ha, hrest⟩ := List.forall_mem_cons.mp harest
    have hba : Compatible b a := (List.pairwise_cons.mp hfit).1 a List.mem_cons_self
    have hswap := rearranged_swap hf hb ha hba m
    have hstart := rearranged_layEntries hf hb (rearranged_layEntries hf ha hm)
    exact rearranged_foldl_congr hf hrest (hswap.trans hstart)
  | trans hfirst _ ih₁ ih₂ =>
    have hfit' := (hfirst.pairwise_iff fun h => h.symm).mp hfit
    exact (ih₁ hd hfit (.refl _)).trans
      (ih₂ (fun m hm => hd m (hfirst.mem_iff.mpr hm)) hfit' hm)

end

/-! ## Equality -/

/-- The items of a list have distinct keys at every depth; other nodes are free. -/
def ItemsDistinct : Tree → Prop
  | .seq items => ∀ t ∈ items, KeysDistinct t
  | _ => True

/-- The node counts as itself: the keys of a mapping are distinct, and so are those within the items
of a list. -/
def CountsAsSelf : Tree → Prop
  | .scalar _ => True
  | .seq items => ∀ t ∈ items, KeysDistinct t
  | .map entries => Table.Distinct entries

theorem throughout_itemsDistinct {t : Tree} (h : KeysDistinct t) : Throughout ItemsDistinct t :=
  fun u hu => by
    cases u with
    | scalar | map => trivial
    | seq items =>
      exact fun v hv w hw => h w ((Tree.within_of_reaches hu).trans (.among hv hw))

/-- Merging makes such nodes, if the lists of the override are such. -/
theorem keeps_countsAsSelf (mode : Merge.Mode) : Merge.Keeps mode ItemsDistinct CountsAsSelf where
  scalar _ _ _ := trivial
  replaced _ _ h _ := h
  united existing items _ hexisting hitems t ht := by
    rcases Merge.mem_unionItems ht with hold | ⟨hnew, -⟩
    · exact hexisting (List.ne_nil_of_mem hold) t hold
    · exact hitems t hnew
  empty := List.Pairwise.nil
  insert _ _ _ _ _ hm _ _ := Table.distinct_insert hm _ _
  erase _ _ hm := Table.distinct_erase hm _

theorem Tree.Rearranged.contains {m m' : Mapping} (h : Rearranged (some (.map m)) (some (.map m')))
    (key : Scalar) : Table.contains m key = Table.contains m' key := by
  unfold Table.contains
  rcases (h.get? key).cases with heq | ⟨a, b, ha, hb⟩
  · rw [heq]
  · rw [ha, hb]
    rfl

mutual

/-- **Trees with the same nodes at the same paths count as the same.** -/
theorem alike_of_rearranged : ∀ t u : Tree, Rearranged (some t) (some u) →
    Throughout CountsAsSelf t → Throughout CountsAsSelf u → alike t u = true
  | .scalar s, u, h, _, _ => by
    rcases h.cases with heq | ⟨m, m', hm, -⟩
    · obtain rfl := Option.some.inj heq
      exact Tree.alike_self _ (Tree.keysDistinct_scalar s)
    · cases hm
  | .seq items, u, h, ht, _ => by
    rcases h.cases with heq | ⟨m, m', hm, -⟩
    · obtain rfl := Option.some.inj heq
      exact Tree.alike_self _ (Tree.keysDistinct_seq.mpr ht.here)
    · cases hm
  | .map es, u, h, ht, hu => by
    obtain ⟨fs, rfl⟩ : ∃ fs, u = .map fs := by
      rcases h.cases with heq | ⟨m, m', -, hm'⟩
      · exact ⟨es, (Option.some.inj heq).symm⟩
      · exact ⟨m', Option.some.inj hm'⟩
    obtain ⟨hes, htbelow⟩ := throughout_map.mp ht
    obtain ⟨hfs, hubelow⟩ := throughout_map.mp hu
    have hle : es.length ≤ fs.length := Table.length_le_of_contains hes fun e he =>
      (h.contains e.1).symm.trans (Table.contains_iff.mpr ⟨e, he, BEq.rfl⟩)
    have hge : fs.length ≤ es.length := Table.length_le_of_contains hfs fun e he =>
      (h.contains e.1).trans (Table.contains_iff.mpr ⟨e, he, BEq.rfl⟩)
    rw [alike, Bool.and_eq_true, beq_iff_eq]
    refine ⟨Nat.le_antisymm hle hge,
      alikeEntries_of_rearranged es fs (fun e he => ?_) htbelow hubelow⟩
    have hget := h.get? e.1
    rwa [Table.get?_of_mem hes he] at hget

theorem alikeEntries_of_rearranged : ∀ es fs : Mapping,
    (∀ e ∈ es, Rearranged (some e.2) (Table.get? fs e.1)) →
    (∀ e ∈ es, Throughout CountsAsSelf e.2) → (∀ e ∈ fs, Throughout CountsAsSelf e.2) →
    alikeEntries es fs = true
  | [], _, _, _, _ => by rw [alikeEntries]
  | (key, t) :: es, fs, h, ht, hu => by
    obtain ⟨hhead, hrest⟩ := List.forall_mem_cons.mp h
    obtain ⟨hself, hselves⟩ := List.forall_mem_cons.mp ht
    rw [alikeEntries, alikeEntries_of_rearranged es fs hrest hselves hu, Bool.and_true]
    cases hget : Table.get? fs key with
    | none =>
      rw [hget] at hhead
      rcases hhead.cases with heq | ⟨_, _, _, hnone⟩
      · cases heq
      · cases hnone
    | some u =>
      obtain ⟨key', hin, -⟩ := Table.mem_of_get? hget
      exact alike_of_rearranged t u (hget ▸ hhead) hself (hu _ hin)

end

theorem equals_of_rearranged {m m' : Mapping} (h : Rearranged (some (.map m)) (some (.map m')))
    (hm : Throughout CountsAsSelf (.map m)) (hm' : Throughout CountsAsSelf (.map m')) :
    Tree.equals (.map m) (.map m') = true := by
  rw [Tree.equals, alike_of_rearranged _ _ h hm hm']
  rfl

/-! ## The merged view and the merged data -/

theorem countsAsSelf_merged {corpus : Corpus}
    (hd : ∀ part ∈ corpus.parts, KeysDistinct (.map part.2)) :
    Throughout CountsAsSelf (.map corpus.merged) := by
  unfold Corpus.merged
  refine List.foldlRecOn (motive := fun m => Throughout CountsAsSelf (.map m)) corpus.parts _
    (throughout_map.mpr ⟨List.Pairwise.nil, fun _ he => absurd he List.not_mem_nil⟩) ?_
  exact fun m hm part hpart => Merge.deepMerge_keeps (keeps_countsAsSelf .replace) hm
    (throughout_itemsDistinct (hd part hpart))

theorem countsAsSelf_confinedView {corpus : Corpus}
    (hd : ∀ part ∈ corpus.parts, KeysDistinct (.map part.2)) (knockout : Knockout)
    (context : Tree) : Throughout CountsAsSelf (.map (confinedView corpus knockout context)) := by
  have hsections : ∀ found ∈ corpus.sections, Throughout ItemsDistinct found.2.2 :=
    fun found hfound => by
      obtain ⟨part, hpart, -, hin⟩ := exists_part_of_mem_sections hfound
      exact (throughout_map.mp (throughout_itemsDistinct (hd part hpart))).2 _ hin
  refine throughout_map.mpr ⟨distinct_confinedView corpus knockout context, fun e he => ?_⟩
  have hkept := confinedView_keeps (keeps_countsAsSelf (sectionMode knockout))
    (fun _ _ _ _ => trivial) corpus hsections context e he
  unfold SectionKept at hkept
  obtain ⟨key, value⟩ := e
  cases value with
  | map entries => exact hkept
  | scalar s => exact Tree.throughout_scalar.mpr trivial
  | seq items =>
    have hitems : Throughout ItemsDistinct (.seq items) := hkept
    exact Tree.throughout_seq.mpr hitems.here

/-- **Files that overlap in mappings only can come in any order.** Two corpora whose mappings are
the same but for their order, under whatever names, have equal merged views, and without a context
and a marker equal merged data. -/
theorem merged_perm {corpus other : Corpus}
    (hperm : (corpus.parts.map (·.2)).Perm (other.parts.map (·.2)))
    (hkeys : ∀ part ∈ corpus.parts, KeysDistinct (.map part.2))
    (hfit : (corpus.parts.map (·.2)).Pairwise Compatible) :
    Tree.equals (.map corpus.merged) (.map other.merged) = true ∧
    ∃ merged merged', (mergeConfined corpus (.ofPrefix none) .null).outcome = .ok merged ∧
      (mergeConfined other (.ofPrefix none) .null).outcome = .ok merged' ∧
      Tree.equals (.map merged) (.map merged') = true := by
  have hkeys' : ∀ part ∈ other.parts, KeysDistinct (.map part.2) := fun part hpart => by
    obtain ⟨same, hsame, heq⟩ := List.mem_map.mp (hperm.mem_iff.mpr (List.mem_map_of_mem hpart))
    exact heq ▸ hkeys same hsame
  have hlayers : ∀ m ∈ corpus.parts.map (·.2), Throughout DistinctNode (.map m) := fun m hm => by
    obtain ⟨part, hpart, rfl⟩ := List.mem_map.mp hm
    exact (hkeys part hpart).throughout
  have hreplace : deepMerge .replace = layEntries (mergeValue .replace) :=
    funext₂ (deepMerge_eq_layEntries .replace)
  refine ⟨?_, _, _, mergeConfined_ofPrefix corpus none .null,
    mergeConfined_ofPrefix other none .null, ?_⟩
  · refine equals_of_rearranged ?_ (countsAsSelf_merged hkeys) (countsAsSelf_merged hkeys')
    rw [Corpus.merged_eq, Corpus.merged_eq, hreplace]
    exact rearranged_foldl (orderFree_mergeValue false) hperm hlayers hfit (.refl _)
  · refine equals_of_rearranged ?_ (countsAsSelf_confinedView hkeys _ _)
      (countsAsSelf_confinedView hkeys' _ _)
    rw [confinedView_eq_foldl, confinedView_eq_foldl]
    exact rearranged_foldl orderFree_mergedSection hperm hlayers hfit (.refl _)

/-- Two files about one profile, which share no field of it: one with a list that has an item twice,
one with a check. -/
def profileFiles : Corpus := [
  ("a.yaml", .map [(.str "profiles", .map [(.str "p", .map [(.str "title", .str "P"),
    (.str "tags", .seq [.int 1, .int 1])])])]),
  ("b.yaml", .map [(.str "version", .str "2.0.0"), (.str "profiles",
    .map [(.str "p", .map [(.str "checks", .map [(.str "c", .bool true)])])])])]

/-- They merge to equal mappings in either order. -/
theorem merged_perm_profile :
    (profileFiles.parts.map (·.2)).Perm ((Corpus.parts profileFiles.reverse).map (·.2)) ∧
    (∀ part ∈ profileFiles.parts, KeysDistinct (.map part.2)) ∧
    (profileFiles.parts.map (·.2)).Pairwise Compatible ∧
    Tree.equals (.map profileFiles.merged) (.map (Corpus.merged profileFiles.reverse)) = true := by
  have hperm : (profileFiles.parts.map (·.2)).Perm
      ((Corpus.parts profileFiles.reverse).map (·.2)) := List.Perm.swap _ _ _
  have hkeys : ∀ part ∈ profileFiles.parts, KeysDistinct (.map part.2) := by decide
  have hfields : Compatible [(.str "title", .str "P"), (.str "tags", .seq [.int 1, .int 1])]
      [(.str "checks", .map [(.str "c", .bool true)])] :=
    compatible_of_entries (by simp [Table.get?, Scalar.beq_iff, Scalar.ident])
  have hprofile : Compatible
      [(.str "p", .map [(.str "title", .str "P"), (.str "tags", .seq [.int 1, .int 1])])]
      [(.str "p", .map [(.str "checks", .map [(.str "c", .bool true)])])] :=
    compatible_of_entries (by simp [Table.get?, hfields])
  have hfit : (profileFiles.parts.map (·.2)).Pairwise Compatible :=
    List.pairwise_pair.mpr (compatible_of_entries
      (by simp [Table.get?, Scalar.beq_iff, Scalar.ident, hprofile]))
  exact ⟨hperm, hkeys, hfit, (merged_perm hperm hkeys hfit).1⟩

end Compliance
