import Compliance.Config
import Compliance.Corpus
import Compliance.Proofs.DistinctKeys
import Compliance.Proofs.MergeInvariant
import Compliance.Proofs.UnionFacts
import Mathlib.Data.List.Induction

/-! # The last writer wins

Layers laid over one another, as the documents of a corpus and the layers of the configuration are,
are decided path by path: by the last layer that has anything to say about a path, and by nothing
else.

* `Tree.at?`: the node at a path of keys.
* `Cuts`, `Touches`, `LastTouching`: what a layer says about a path.
* `LastWriter`: what the result is at a path.
* `laidOver_deepMerge`: one path after one more layer; by recursion on the path.
* `lastWriter_foldl`: all layers; by induction on them.
* `merged_lastWriter`: this is so for the merged view and for the configuration.
-/

namespace Compliance

open Compliance.Tree (Throughout DistinctNode throughout_map)

/-! ## Paths -/

/-- The node at a path of keys. -/
def Tree.at? : Tree → List Scalar → Option Tree
  | t, [] => some t
  | t, key :: path => (Table.get? t.entries key).bind fun u => u.at? path

/-- A node that is no mapping stands on the way: at the end of a part of the path that is neither
empty nor all of it. -/
def Cuts (t : Tree) (path : List Scalar) : Prop :=
  ∃ front rest u, path = front ++ rest ∧ front ≠ [] ∧ rest ≠ [] ∧ t.at? front = some u ∧
    u.isMap = false

/-- The layer says something about a path: it has a node there, or cuts the way. -/
def Touches (t : Tree) (path : List Scalar) : Prop := (t.at? path).isSome ∨ Cuts t path

/-- The layer is the last one to say something about a path. -/
def LastTouching (layers : List Mapping) (path : List Scalar) (m : Mapping) : Prop :=
  ∃ before after, layers = before ++ m :: after ∧ Touches (.map m) path ∧
    ∀ later ∈ after, ¬ Touches (.map later) path

/-- **What the layers make of a path.** There is nothing where no layer says anything, and where the
last layer that does cuts the way; a node that is no mapping is taken over as it is; and where the
last layer has a mapping the result has one. -/
structure LastWriter (layers : List Mapping) (result : Mapping) (path : List Scalar) : Prop where
  untouched : (∀ m ∈ layers, ¬ Touches (.map m) path) → (Tree.map result).at? path = none
  cut : ∀ m, LastTouching layers path m → Cuts (.map m) path → (Tree.map result).at? path = none
  value : ∀ m t, LastTouching layers path m → (Tree.map m).at? path = some t → t.isMap = false →
    (Tree.map result).at? path = some t
  mapping : ∀ m t, LastTouching layers path m → (Tree.map m).at? path = some t → t.isMap = true →
    ∃ u, (Tree.map result).at? path = some u ∧ u.isMap = true

theorem at?_of_isMap {t : Tree} (h : t.isMap = false) {path : List Scalar} (hp : path ≠ []) :
    t.at? path = none := by
  cases path with
  | nil => exact absurd rfl hp
  | cons key path =>
    cases t with
    | map m => cases h
    | scalar s => rfl
    | seq items => rfl

theorem cuts_cons {t : Tree} {key : Scalar} {path : List Scalar} :
    Cuts t (key :: path) ↔ ∃ u, Table.get? t.entries key = some u ∧
      (u.isMap = false ∧ path ≠ [] ∨ Cuts u path) := by
  constructor
  · rintro ⟨front, rest, v, hpath, hfront, hrest, hat, hv⟩
    cases front with
    | nil => exact absurd rfl hfront
    | cons k front =>
      obtain ⟨rfl, rfl⟩ := List.cons.inj hpath
      obtain ⟨u, hu, hat⟩ := Option.bind_eq_some_iff.mp hat
      refine ⟨u, hu, ?_⟩
      by_cases hnil : front = []
      · subst hnil
        obtain rfl := Option.some.inj hat
        exact .inl ⟨hv, hrest⟩
      · exact .inr ⟨front, rest, v, rfl, hnil, hrest, hat, hv⟩
  · rintro ⟨u, hu, ⟨hmap, hne⟩ | ⟨front, rest, v, rfl, -, hrest, hat, hv⟩⟩
    · exact ⟨[key], path, u, rfl, List.cons_ne_nil _ _, hne, by rw [Tree.at?, hu]; rfl, hmap⟩
    · exact ⟨key :: front, rest, v, rfl, List.cons_ne_nil _ _, hrest,
        by rw [Tree.at?, hu]; exact hat, hv⟩

theorem not_cuts_of_isMap {t : Tree} (h : t.isMap = false) (path : List Scalar) :
    ¬ Cuts t path := by
  rintro ⟨front, rest, u, -, hfront, -, hat, -⟩
  rw [at?_of_isMap h hfront] at hat
  cases hat

/-! ## One more layer -/

theorem mergeValue_replace_of_isMap {t : Tree} (h : t.isMap = false) (current : Option Tree) :
    mergeValue .replace current t = some t := by
  cases t with
  | map m => cases h
  | scalar s =>
    rw [mergeValue]
    simp [Merge.Mode.replace, Knockout.removes]
  | seq items =>
    rw [mergeValue]
    simp [Merge.Mode.replace, Knockout.removes]

theorem mergeValue_replace_map (current : Option Tree) (m : Mapping) :
    mergeValue .replace current (.map m) =
      some (.map (deepMerge .replace (Merge.existingEntries current) m)) := by
  rw [mergeValue]
  rfl

/-- Only mappings lead on, so nothing but the mapping that is there matters below a key. -/
theorem at?_existingEntries (current : Option Tree) {path : List Scalar} (hp : path ≠ []) :
    (Tree.map (Merge.existingEntries current)).at? path = current.bind fun t => t.at? path := by
  cases path with
  | nil => exact absurd rfl hp
  | cons key path =>
    cases current with
    | none => rfl
    | some t => cases t <;> rfl

/-- What a layer laid over a base makes of a path. -/
structure LaidOver (base layer result : Tree) (path : List Scalar) : Prop where
  untouched : ¬ Touches layer path → result.at? path = base.at? path
  cut : Cuts layer path → result.at? path = none
  value : ∀ t, layer.at? path = some t → t.isMap = false → result.at? path = some t
  mapping : ∀ t, layer.at? path = some t → t.isMap = true →
    ∃ u, result.at? path = some u ∧ u.isMap = true

theorem LaidOver.of_none {base layer result : Tree} {key : Scalar} {path : List Scalar}
    (hl : Table.get? layer.entries key = none)
    (hr : Table.get? result.entries key = Table.get? base.entries key) :
    LaidOver base layer result (key :: path) := by
  have hat : layer.at? (key :: path) = none := by rw [Tree.at?, hl]; rfl
  have hcuts : ¬ Cuts layer (key :: path) := fun hc => by
    obtain ⟨u, hu, -⟩ := cuts_cons.mp hc
    rw [hl] at hu
    cases hu
  exact ⟨fun _ => by rw [Tree.at?, Tree.at?, hr], fun hc => absurd hc hcuts,
    fun t ht => absurd (hat.symm.trans ht) (Option.some_ne_none t).symm,
    fun t ht => absurd (hat.symm.trans ht) (Option.some_ne_none t).symm⟩

/-- A node that is no mapping takes the place of what was there, with all below it. -/
theorem LaidOver.of_leaf {base layer result : Tree} {key : Scalar} {path : List Scalar} {u : Tree}
    (hu : u.isMap = false) (hl : Table.get? layer.entries key = some u)
    (hr : Table.get? result.entries key = some u) : LaidOver base layer result (key :: path) := by
  have hat : layer.at? (key :: path) = u.at? path := by rw [Tree.at?, hl]; rfl
  have hres : result.at? (key :: path) = u.at? path := by rw [Tree.at?, hr]; rfl
  refine ⟨fun htouch => absurd ?_ htouch, fun hc => ?_, fun t ht _ => ?_, fun t ht hmap => ?_⟩
  · by_cases hp : path = []
    · exact .inl (by rw [hat, hp]; rfl)
    · exact .inr (cuts_cons.mpr ⟨u, hl, .inl ⟨hu, hp⟩⟩)
  · obtain ⟨v, hv, hc⟩ := cuts_cons.mp hc
    obtain rfl := Option.some.inj (hl.symm.trans hv)
    have hp : path ≠ [] := hc.elim And.right fun hc => absurd hc (not_cuts_of_isMap hu path)
    rw [hres, at?_of_isMap hu hp]
  · rw [hres, ← hat, ht]
  · exact ⟨t, by rw [hres, ← hat, ht], hmap⟩

/-- Below a mapping the path goes on in it, over the mapping that is there. -/
theorem LaidOver.under {base layer result : Tree} {key : Scalar} {path : List Scalar} {m : Mapping}
    {r : Tree} (hp : path ≠ []) (hl : Table.get? layer.entries key = some (.map m))
    (hr : Table.get? result.entries key = some r)
    (h : LaidOver (.map (Merge.existingEntries (Table.get? base.entries key))) (.map m) r path) :
    LaidOver base layer result (key :: path) := by
  have hat : layer.at? (key :: path) = (Tree.map m).at? path := by rw [Tree.at?, hl]; rfl
  have hres : result.at? (key :: path) = r.at? path := by rw [Tree.at?, hr]; rfl
  have hbase : base.at? (key :: path) =
      (Tree.map (Merge.existingEntries (Table.get? base.entries key))).at? path :=
    (at?_existingEntries _ hp).symm
  have hcuts : Cuts layer (key :: path) ↔ Cuts (.map m) path := by
    rw [cuts_cons]
    refine ⟨fun ⟨u, hu, hc⟩ => ?_, fun hc => ⟨_, hl, .inr hc⟩⟩
    obtain rfl := Option.some.inj (hl.symm.trans hu)
    exact hc.resolve_left fun hleaf => Bool.noConfusion hleaf.1
  have htouch : Touches layer (key :: path) ↔ Touches (.map m) path := by
    unfold Touches
    rw [hat, hcuts]
  exact ⟨fun ht => by rw [hres, hbase, h.untouched (mt htouch.mpr ht)],
    fun hc => hres.trans (h.cut (hcuts.mp hc)),
    fun t ht hleaf => hres.trans (h.value t (hat ▸ ht) hleaf),
    fun t ht hmap => hres.symm ▸ h.mapping t (hat ▸ ht) hmap⟩

theorem LaidOver.of_map {base layer result : Tree} {key : Scalar} {m n : Mapping}
    (hl : Table.get? layer.entries key = some (.map m))
    (hr : Table.get? result.entries key = some (.map n)) : LaidOver base layer result [key] := by
  have hat : layer.at? [key] = some (.map m) := by rw [Tree.at?, hl]; rfl
  have hres : result.at? [key] = some (.map n) := by rw [Tree.at?, hr]; rfl
  refine ⟨fun htouch => absurd (.inl (by rw [hat]; rfl)) htouch, fun hc => ?_, fun t ht hleaf => ?_,
    fun _ _ _ => ⟨_, hres, rfl⟩⟩
  · obtain ⟨u, -, ⟨-, hne⟩ | ⟨front, rest, -, hnil, hfront, -⟩⟩ := cuts_cons.mp hc
    · exact absurd rfl hne
    · exact absurd (List.append_eq_nil_iff.mp hnil.symm).1 hfront
  · obtain rfl := Option.some.inj (hat.symm.trans ht)
    cases hleaf

/-- What a layer does to one key: nothing, replace its value, or merge a mapping. -/
theorem get?_deepMerge_cases {layer : Mapping} (hd : Table.Distinct layer) (base : Mapping)
    (key : Scalar) :
    (Table.get? layer key = none ∧
      Table.get? (deepMerge .replace base layer) key = Table.get? base key) ∨
    (∃ u, u.isMap = false ∧ Table.get? layer key = some u ∧
      Table.get? (deepMerge .replace base layer) key = some u) ∨
    ∃ m, Table.get? layer key = some (.map m) ∧ Table.get? (deepMerge .replace base layer) key =
      some (.map (deepMerge .replace (Merge.existingEntries (Table.get? base key)) m)) := by
  rw [get?_deepMerge hd]
  cases Table.get? layer key with
  | none => exact .inl ⟨rfl, rfl⟩
  | some u =>
    cases u with
    | map m => exact .inr (.inr ⟨m, rfl, mergeValue_replace_map _ m⟩)
    | scalar s => exact .inr (.inl ⟨_, rfl, rfl, mergeValue_replace_of_isMap rfl _⟩)
    | seq items => exact .inr (.inl ⟨_, rfl, rfl, mergeValue_replace_of_isMap rfl _⟩)

/-- **One path after one more layer.** -/
theorem laidOver_deepMerge (path : List Scalar) (key : Scalar) (base layer : Mapping)
    (hd : Throughout DistinctNode (.map layer)) :
    LaidOver (.map base) (.map layer) (.map (deepMerge .replace base layer)) (key :: path) := by
  rcases get?_deepMerge_cases (throughout_map.mp hd).1 base key with
    ⟨hl, hr⟩ | ⟨u, hu, hl, hr⟩ | ⟨m, hl, hr⟩
  · exact .of_none hl hr
  · exact .of_leaf hu hl hr
  · match path with
    | [] => exact .of_map hl hr
    | next :: rest =>
      exact .under (List.cons_ne_nil _ _) hl hr (laidOver_deepMerge rest next _ m (hd.get? hl))

/-! ## All layers -/

theorem last_with_concat {α : Type} {P : α → Prop} {items : List α} {last x : α} :
    (∃ before after, items ++ [last] = before ++ x :: after ∧ P x ∧ ∀ y ∈ after, ¬ P y) ↔
      x = last ∧ P last ∨
        ¬ P last ∧ ∃ before after, items = before ++ x :: after ∧ P x ∧ ∀ y ∈ after, ¬ P y := by
  constructor
  · rintro ⟨before, after, hsplit, hx, hafter⟩
    rcases List.eq_nil_or_concat after with rfl | ⟨front, final, rfl⟩
    · have hlast := (List.cons.inj (List.append_inj_right' hsplit rfl)).1
      exact .inl ⟨hlast.symm, hlast ▸ hx⟩
    · rw [List.concat_eq_append] at hsplit hafter
      have hsplit : items ++ [last] = (before ++ x :: front) ++ [final] := by
        rw [hsplit, List.append_assoc, List.cons_append]
      obtain ⟨hitems, hlast⟩ := List.append_inj' hsplit rfl
      obtain rfl := (List.cons.inj hlast).1
      exact .inr ⟨hafter _ (List.mem_append_right _ List.mem_cons_self),
        before, front, hitems, hx, fun y hy => hafter y (List.mem_append_left _ hy)⟩
  · rintro (⟨rfl, hx⟩ | ⟨hnot, before, after, rfl, hx, hafter⟩)
    · exact ⟨items, [], rfl, hx, fun _ h => absurd h List.not_mem_nil⟩
    · refine ⟨before, after ++ [last], by simp, hx, fun y hy => ?_⟩
      rcases List.mem_append.mp hy with hin | hin
      · exact hafter y hin
      · exact List.mem_singleton.mp hin ▸ hnot

/-- The last of the layers is the last to touch a path, or what the others say stands. -/
theorem lastTouching_concat {layers : List Mapping} {last m : Mapping} {path : List Scalar}
    (h : LastTouching (layers ++ [last]) path m) :
    m = last ∨ ¬ Touches (.map last) path ∧ LastTouching layers path m :=
  (last_with_concat (P := fun m : Mapping => Touches (.map m) path).mp h).imp_left And.left

/-- **All layers**, one over the other, from nothing on. -/
theorem lastWriter_foldl {layers : List Mapping}
    (hd : ∀ m ∈ layers, Throughout DistinctNode (.map m)) {path : List Scalar} (hp : path ≠ []) :
    LastWriter layers (layers.foldl (deepMerge .replace) []) path := by
  obtain ⟨key, path, rfl⟩ := List.exists_cons_of_ne_nil hp
  induction layers using List.reverseRecOn with
  | nil =>
    have hnone : ∀ m, ¬ LastTouching [] (key :: path) m := fun m ⟨before, after, h, _⟩ => by
      simp at h
    exact ⟨fun _ => rfl, fun m hm => absurd hm (hnone m), fun m _ hm => absurd hm (hnone m),
      fun m _ hm => absurd hm (hnone m)⟩
  | append_singleton layers last ih =>
    -- the last layer decides the path, or leaves it as the layers before have made it
    have hearlier := ih fun m hm => hd m (List.mem_append_left _ hm)
    rw [List.foldl_append]
    have hstep := laidOver_deepMerge path key (layers.foldl (deepMerge .replace) []) last
      (hd last (List.mem_append_right _ List.mem_cons_self))
    refine ⟨fun hnone => ?_, fun m hlast hc => ?_, fun m t hlast ht hleaf => ?_,
      fun m t hlast ht hmap => ?_⟩
    · refine (hstep.untouched (hnone last (List.mem_append_right _ List.mem_cons_self))).trans ?_
      exact hearlier.untouched fun m hm => hnone m (List.mem_append_left _ hm)
    · rcases lastTouching_concat hlast with rfl | ⟨hnot, hbefore⟩
      · exact hstep.cut hc
      · exact (hstep.untouched hnot).trans (hearlier.cut m hbefore hc)
    · rcases lastTouching_concat hlast with rfl | ⟨hnot, hbefore⟩
      · exact hstep.value t ht hleaf
      · exact (hstep.untouched hnot).trans (hearlier.value m t hbefore ht hleaf)
    · rcases lastTouching_concat hlast with rfl | ⟨hnot, hbefore⟩
      · exact hstep.mapping t ht hmap
      · exact (hstep.untouched hnot).symm ▸ hearlier.mapping m t hbefore ht hmap

/-! ## The configuration -/

namespace Config

theorem distinct_fields {pairs : List (String × Tree)} (hk : (pairs.map (·.1)).Nodup)
    (hv : ∀ e ∈ pairs, Throughout DistinctNode e.2) : Throughout DistinctNode (fields pairs) := by
  refine throughout_map.mpr ⟨List.pairwise_map.mpr ?_, fun e he => ?_⟩
  · refine (List.pairwise_map.mp hk).imp fun {a b} hne => Bool.eq_false_iff.mpr fun hbeq => hne ?_
    exact (Scalar.str.inj (beq_str.mp hbeq))
  · obtain ⟨pair, hp, rfl⟩ := List.mem_map.mp he
    exact hv pair hp

theorem distinct_defaults : Throughout DistinctNode (.map defaults) := by
  have hscalar : ∀ {s : Scalar}, Throughout DistinctNode (.scalar s) := distinct_scalar _
  have htexts : ∀ names, Throughout DistinctNode (texts names) := fun _ =>
    Tree.throughout_seq.mpr trivial
  have houtput : Throughout DistinctNode
      (fields [("format", .str "text"), ("verbose", .bool false)]) :=
    distinct_fields (by decide) (by simp [hscalar])
  have hcodes : Throughout DistinctNode
      (fields [("ok", .int 0), ("errors", .int 1), ("input", .int 2)]) :=
    distinct_fields (by decide) (by simp [hscalar])
  have hci : Throughout DistinctNode (fields [("strict", .bool false), ("exit_codes",
      fields [("ok", .int 0), ("errors", .int 1), ("input", .int 2)])]) :=
    distinct_fields (by decide) (by simp [hscalar, hcodes])
  exact distinct_fields (by decide) (by simp [hscalar, htexts, houtput, hci])

/-- A project file is read as a mapping with distinct keys, whatever it holds. -/
theorem distinct_load {d : Disk} {project : Path} {named : Option Path} {loaded : Mapping}
    (h : load d project named = .ok loaded) : Throughout DistinctNode (.map loaded) := by
  have hempty : Throughout DistinctNode (.map []) :=
    throughout_map.mpr ⟨List.Pairwise.nil, fun _ he => absurd he List.not_mem_nil⟩
  unfold load loadFrom at h
  split at h
  · cases h
  · exact Except.ok.inj h ▸ hempty
  · split at h
    · cases h
    · unfold ofText at h
      split at h
      · rename_i value hread
        obtain rfl := Except.ok.inj h
        have hvalue := Yaml.distinct_outline hread
        cases value with
        | map m => exact hvalue
        | scalar s => exact hempty
        | seq items => exact hempty
      · exact Except.ok.inj h ▸ hempty
      · cases h

theorem layered_eq (loaded overrides : Mapping) :
    layered loaded overrides = [defaults, loaded, overrides].foldl (deepMerge .replace) [] := rfl

end Config

/-! ## The merged view and the configuration -/

theorem Corpus.merged_eq (corpus : Corpus) :
    corpus.merged = (corpus.parts.map (·.2)).foldl (deepMerge .replace) [] :=
  List.foldl_map.symm

/-- **The last writer wins at every path**: in the merged view of a corpus, whose layers are the
documents that take part, and in the configuration of a run, whose layers are the defaults, the
project file and what the caller overrides. -/
theorem merged_lastWriter :
    (∀ corpus : Corpus, (∀ part ∈ corpus.parts, Throughout DistinctNode (.map part.2)) →
      ∀ path ≠ [], LastWriter (corpus.parts.map (·.2)) corpus.merged path) ∧
    ∀ (d : Disk) (project : Path) (named : Option Path) (loaded overrides : Mapping),
      Config.load d project named = .ok loaded → Throughout DistinctNode (.map overrides) →
      ∃ config, Config.effective d project named overrides = .ok config ∧
        ∀ path ≠ [], LastWriter [Config.defaults, loaded, overrides] config path := by
  refine ⟨fun corpus hd path hp => ?_, fun d project named loaded overrides hload hoverrides => ?_⟩
  · rw [Corpus.merged_eq]
    refine lastWriter_foldl (fun m hm => ?_) hp
    obtain ⟨part, hpart, rfl⟩ := List.mem_map.mp hm
    exact hd part hpart
  · refine ⟨Config.layered loaded overrides, ?_, fun path hp => ?_⟩
    · unfold Config.effective
      rw [hload]
      rfl
    · rw [Config.layered_eq]
      refine lastWriter_foldl (fun m hm => ?_) hp
      simp only [List.mem_cons, List.not_mem_nil, or_false] at hm
      rcases hm with rfl | rfl | rfl
      · exact Config.distinct_defaults
      · exact Config.distinct_load hload
      · exact hoverrides

/-- A scalar over a mapping, and an empty mapping over the scalar. -/
def collisions : Corpus := [
  ("a.yaml", .map [(.str "x", .map [(.str "y", .int 1)])]),
  ("b.yaml", .map [(.str "x", .int 5)]),
  ("c.yaml", .map [(.str "x", .map [])])]

/-- A project file that puts a number in the place of a mapping. -/
def scalarConfig : Disk := ⟨[(".scelint.yaml", .file "ci: 7\n".toUTF8)], []⟩

/-- The only entry of a mapping, if it is a number under a text. -/
def soleNumber? : Mapping → Option (String × Int)
  | [(.str key, .int n)] => some (key, n)
  | _ => none

theorem eq_of_soleNumber? {m : Mapping} {key : String} {n : Int}
    (h : soleNumber? m = some (key, n)) : m = [(.str key, .int n)] := by
  unfold soleNumber? at h
  split at h
  · cases h
    rfl
  · cases h

/-- What stood below a scalar does not come back with a later mapping, and a project file hides the
defaults below it. -/
theorem merged_lastWriter_collisions :
    (∀ part ∈ collisions.parts, Throughout DistinctNode (.map part.2)) ∧
    (Tree.map collisions.merged).at? [.str "x", .str "y"] = none ∧
    Config.load scalarConfig (Path.ofText ".") none = .ok [(.str "ci", .int 7)] ∧
    Throughout DistinctNode (.map []) ∧
    ∃ config, Config.effective scalarConfig (Path.ofText ".") none [] = .ok config ∧
      (Tree.map config).at? [.str "ci"] = some (.int 7) := by
  have hempty : Throughout DistinctNode (.map []) :=
    throughout_map.mpr ⟨List.Pairwise.nil, fun _ he => absurd he List.not_mem_nil⟩
  have hone : ∀ {key : Scalar} {t : Tree}, Throughout DistinctNode t →
      Throughout DistinctNode (.map [(key, t)]) := fun ht =>
    throughout_map.mpr ⟨List.pairwise_singleton _ _, List.forall_mem_singleton.mpr ht⟩
  have hparts : ∀ part ∈ collisions.parts, Throughout DistinctNode (.map part.2) := by
    simp [collisions, Corpus.parts, mergedName, hone, hempty, distinct_scalar]
  have hload : Config.load scalarConfig (Path.ofText ".") none = .ok [(.str "ci", .int 7)] := by
    have hread : (Config.load scalarConfig (Path.ofText ".") none).toOption.bind soleNumber? =
        some ("ci", 7) := by decide +kernel
    cases hl : Config.load scalarConfig (Path.ofText ".") none with
    | error fault => simp [hl, Except.toOption] at hread
    | ok loaded =>
      rw [hl] at hread
      rw [eq_of_soleNumber? hread]
  -- the scalar of the second document cuts the way, and the third says nothing behind it
  have hcut : Cuts (.map [(.str "x", .int 5)]) [.str "x", .str "y"] :=
    ⟨[.str "x"], [.str "y"], .int 5, rfl, List.cons_ne_nil _ _, List.cons_ne_nil _ _, rfl, rfl⟩
  have hsilent : ¬ Touches (.map [(.str "x", .map [])]) [.str "x", .str "y"] := by
    rintro (hat | hc)
    · cases hat
    · obtain ⟨u, hu, hc⟩ := cuts_cons.mp hc
      obtain rfl := Option.some.inj hu
      obtain ⟨hmap, -⟩ | hc := hc
      · cases hmap
      · obtain ⟨u, hu, -⟩ := cuts_cons.mp hc
        cases hu
  have hx := (merged_lastWriter.1 collisions hparts [.str "x", .str "y"]
    (List.cons_ne_nil _ _)).cut _ ⟨[_], [_], rfl, .inr hcut, by simpa using hsilent⟩ hcut
  obtain ⟨config, hconfig, hwins⟩ := merged_lastWriter.2 scalarConfig (Path.ofText ".") none
    [(.str "ci", .int 7)] [] hload hempty
  have hci := (hwins [.str "ci"] (List.cons_ne_nil _ _)).value [(.str "ci", .int 7)] (.int 7)
  refine ⟨hparts, hx, hload, hempty, config, hconfig, hci ⟨[_], [_], rfl, .inl rfl, ?_⟩ rfl rfl⟩
  rintro later hl (hat | hc)
  · obtain rfl := List.mem_singleton.mp hl
    cases hat
  · obtain rfl := List.mem_singleton.mp hl
    obtain ⟨u, hu, -⟩ := cuts_cons.mp hc
    cases hu

end Compliance
