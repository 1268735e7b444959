import Compliance.Proofs.KnockoutTrace
import Compliance.Proofs.SelfMerge
import Compliance.Proofs.SplitClauses
import Compliance.Proofs.TwinClasses

/-! # The last mention decides a list

Layers with a marker add elements to a list and take elements back. In the end a text is in the list
if the last layer to mention it, marked or not, adds it; anything else can only be added.

* `OpenTo`: a layer that says nothing against a list at a path. `listsAt`: the lists of the layers.
* `overlaid_deepMerge`: one path after one more layer; by recursion on the path.
* `standing_of_open`: the list after all layers is the union of their lists; by induction on the
  layers.
* `mem_unions_text`, `exists_twin_unions`: what such a union holds; by induction on the lists.
* `unions_absent`, `unions_inert`: taking back what is not there.
* `lastMention_wins`: all of it for the layers.
-/

namespace Compliance

open Compliance.Merge (existingItems existingEntries unionItems)
open Compliance.Tree (KeysDistinct Throughout DistinctNode throughout_map NaNFree twins twins_self)

/-! ## Unions of lists -/

def unions (lead : String) (lists : List (List Tree)) : List Tree :=
  lists.foldl (unionItems (.marker lead)) []

/-- The list mentions the element, to add it or to take it back. -/
def Mentions (lead x : String) (items : List Tree) : Prop :=
  .str x ∈ items ∨ .str (lead ++ x) ∈ items

/-- The last of the lists that mentions the element. -/
def LastMention (lead x : String) (lists : List (List Tree)) (items : List Tree) : Prop :=
  ∃ before after, lists = before ++ items :: after ∧ Mentions lead x items ∧
    ∀ later ∈ after, ¬ Mentions lead x later

section
variable {lead x : String} {lists : List (List Tree)} {items last : List Tree}

theorem unions_concat (lead : String) (lists : List (List Tree)) (last : List Tree) :
    unions lead (lists ++ [last]) = unionItems (.marker lead) (unions lead lists) last := by
  rw [unions, List.foldl_append]
  rfl

theorem lastMention_concat : LastMention lead x (lists ++ [last]) items ↔ items = last ∧
    Mentions lead x last ∨ ¬ Mentions lead x last ∧ LastMention lead x lists items :=
  last_with_concat

/-- **A text that is not marked is there exactly if the last mention adds it.** -/
theorem mem_unions_text (hx : ¬ lead.toList <+: x.toList) (lists : List (List Tree)) :
    .str x ∈ unions lead lists ↔ ∃ items, LastMention lead x lists items ∧ .str x ∈ items := by
  induction lists using List.reverseRecOn with
  | nil => simp [unions, LastMention]
  | append_singleton lists last ih =>
    rw [unions_concat, Merge.mem_unionItems_text hx, ih]
    simp only [lastMention_concat]
    constructor
    · rintro (hadd | ⟨⟨items, hlast, hin⟩, hkept⟩)
      · exact ⟨last, .inl ⟨rfl, .inl hadd⟩, hadd⟩
      · by_cases hadd : .str x ∈ last
        · exact ⟨last, .inl ⟨rfl, .inl hadd⟩, hadd⟩
        · exact ⟨items, .inr ⟨fun hm => hm.elim hadd hkept, hlast⟩, hin⟩
    · rintro ⟨items, ⟨rfl, -⟩ | ⟨hsilent, hlast⟩, hin⟩
      · exact .inl hin
      · exact .inr ⟨⟨items, hlast, hin⟩, fun hmark => hsilent (.inr hmark)⟩

theorem not_mem_unions_marked (hx : lead.toList <+: x.toList) (lists : List (List Tree)) :
    .str x ∉ unions lead lists := by
  induction lists using List.reverseRecOn with
  | nil => exact List.not_mem_nil
  | append_singleton lists last ih =>
    rw [unions_concat]
    exact fun h => ih (Merge.unionItems_unmarked h hx)

/-- **Anything but texts has a twin there exactly if it has one in some list.** -/
theorem exists_twin_unions {t : Tree} (ht : ∀ s, t ≠ .str s) (lists : List (List Tree)) :
    (∃ u ∈ unions lead lists, twins u t = true) ↔
      ∃ items ∈ lists, ∃ u ∈ items, twins u t = true := by
  induction lists using List.reverseRecOn with
  | nil => simp [unions]
  | append_singleton lists last ih =>
    rw [unions_concat, Merge.exists_twin_unionItems ht, ih]
    simp [or_and_right, exists_or]

theorem pairwise_unions (lead : String) (lists : List (List Tree)) :
    (unions lead lists).Pairwise fun a b => twins a b = false := by
  induction lists using List.reverseRecOn with
  | nil => exact List.Pairwise.nil
  | append_singleton lists last _ =>
    rw [unions_concat]
    exact Merge.pairwise_unionItems _ _ _

theorem unions_absent {before : List (List Tree)} (hx : .str x ∉ unions lead before)
    (front back : List Tree) (after : List (List Tree)) :
    unions lead (before ++ (front ++ .str (lead ++ x) :: back) :: after) =
      unions lead (before ++ (front ++ back) :: after) := by
  unfold unions at hx ⊢
  rw [List.foldl_append, List.foldl_cons, Merge.unionItems_absent front back hx, List.foldl_append,
    List.foldl_cons]

theorem unions_inert (h : ∀ t ∈ last, ∃ x, t = .str (lead ++ x) ∧ .str x ∉ unions lead lists) :
    unions lead (lists ++ [last]) = unions lead lists := by
  rw [unions_concat]
  exact Merge.unionItems_inert (pairwise_unions lead lists) h

end

/-! ## Layers with a list at a path -/

/-- The tree has nothing along the path, or mappings only with a list or a null at its end. -/
def OpenTo (path : List Scalar) (t : Tree) : Prop :=
  ¬ Cuts t path ∧ ∀ u, t.at? path = some u → u = .null ∨ ∃ items, u = .seq items

def listAt? (path : List Scalar) (t : Tree) : Option (List Tree) :=
  match t.at? path with
  | some (.seq items) => some items
  | _ => none

/-- The lists that the layers have at a path, in order. -/
def listsAt (path : List Scalar) (layers : List Mapping) : List (List Tree) :=
  layers.filterMap fun m => listAt? path (.map m)

/-- The layers laid over nothing, with lists united and elements taken back. -/
def laid (lead : String) (layers : List Mapping) : Mapping :=
  layers.foldl (deepMerge (sectionMode (.ofPrefix (some lead)))) []

theorem laid_concat (lead : String) (layers : List Mapping) (last : Mapping) :
    laid lead (layers ++ [last]) =
      deepMerge (sectionMode (.ofPrefix (some lead))) (laid lead layers) last := by
  rw [laid, List.foldl_append]
  rfl

theorem listAt?_eq_some {path : List Scalar} {t : Tree} {items : List Tree} :
    listAt? path t = some items ↔ t.at? path = some (.seq items) := by
  unfold listAt?
  split
  · rename_i found h
    simp [h]
  · rename_i hother
    simp only [reduceCtorEq, false_iff]
    exact fun h => hother items h

theorem not_cuts_nil (t : Tree) : ¬ Cuts t [] := by
  rintro ⟨front, rest, u, hpath, hfront, -⟩
  exact hfront (List.append_eq_nil_iff.mp hpath.symm).1

theorem not_cuts_of_isSome {t : Tree} {path : List Scalar} (h : (t.at? path).isSome = true) :
    ¬ Cuts t path := by
  rintro ⟨front, rest, u, rfl, -, hrest, hu, hleaf⟩
  obtain ⟨v, hv, hmap⟩ := isMap_of_at?_append hrest h
  rw [Option.some.inj (hu.symm.trans hv), hmap] at hleaf
  cases hleaf

theorem openTo_of_some {t u : Tree} {path : List Scalar} (h : t.at? path = some u)
    (hu : u = .null ∨ ∃ items, u = .seq items) : OpenTo path t := by
  refine ⟨not_cuts_of_isSome (by rw [h]; rfl), fun v hv => ?_⟩
  obtain rfl := Option.some.inj (h.symm.trans hv)
  exact hu

theorem openTo_of_list {t : Tree} {path : List Scalar} {items : List Tree}
    (h : t.at? path = some (.seq items)) : OpenTo path t := openTo_of_some h (.inr ⟨items, rfl⟩)

theorem listsAt_nil (layers : List Mapping) : listsAt [] layers = [] :=
  List.filterMap_eq_nil_iff.mpr fun _ _ => rfl

theorem removes_of_ne_text {lead : Option String} {t : Tree} (ht : ∀ s, t ≠ .str s) :
    (Knockout.ofPrefix lead).removes t = false := by
  rw [Bool.eq_false_iff]
  intro h
  obtain ⟨p, -, -, htext⟩ := Knockout.removes_ofPrefix.mp h
  exact ht p htext

theorem mergeValue_map (lead : Option String) (current : Option Tree) (m : Mapping) :
    mergeValue (sectionMode (.ofPrefix lead)) current (.map m) =
      some (.map (deepMerge (sectionMode (.ofPrefix lead)) (existingEntries current) m)) := by
  have hkept : (Knockout.ofPrefix lead).removes (.map m) = false :=
    removes_of_ne_text fun _ => Tree.noConfusion
  rw [mergeValue, sectionMode, hkept]
  rfl

theorem mergeValue_seq {lead : String} (hlead : lead ≠ "") (current : Option Tree)
    (items : List Tree) : mergeValue (sectionMode (.ofPrefix (some lead))) current (.seq items) =
      some (.seq (unionItems (.marker lead) (existingItems current) items)) := by
  have hkept : (Knockout.ofPrefix (some lead)).removes (.seq items) = false :=
    removes_of_ne_text fun _ => Tree.noConfusion
  rw [mergeValue, sectionMode, hkept, ofPrefix_of_ne hlead]
  rfl

theorem mergeValue_null (lead : Option String) (current : Option Tree) :
    mergeValue (sectionMode (.ofPrefix lead)) current .null = some (current.getD .null) := by
  have hkept : (Knockout.ofPrefix lead).removes .null = false :=
    removes_of_ne_text fun s h => by cases h
  rw [mergeValue, sectionMode, hkept]
  rfl

/-- What a layer makes of the node that is there. -/
def overlay (lead : Option String) (current : Option Tree) : Option Tree → Option Tree
  | none => current
  | some t => mergeValue (sectionMode (.ofPrefix lead)) current t

/-- What a layer laid over a base makes of a path that neither of them cuts. -/
structure Overlaid (lead : Option String) (base layer result : Mapping) (path : List Scalar) :
    Prop where
  node : (Tree.map result).at? path = overlay lead ((Tree.map base).at? path)
    ((Tree.map layer).at? path)
  isOpen : ¬ Cuts (.map result) path

section
variable {lead : Option String} {base layer result : Mapping} {key : Scalar} {path : List Scalar}

theorem at?_map_cons (m : Mapping) (key : Scalar) (path : List Scalar) :
    (Tree.map m).at? (key :: path) = (Table.get? m key).bind fun u => u.at? path := rfl

theorem cuts_map_cons {m : Mapping} : Cuts (.map m) (key :: path) ↔
    ∃ u, Table.get? m key = some u ∧ (u.isMap = false ∧ path ≠ [] ∨ Cuts u path) := cuts_cons

theorem Overlaid.of_none (hb : ¬ Cuts (.map base) (key :: path))
    (hl : Table.get? layer key = none) (hr : Table.get? result key = Table.get? base key) :
    Overlaid lead base layer result (key :: path) := by
  refine ⟨?_, ?_⟩
  · rw [at?_map_cons, at?_map_cons, at?_map_cons, hl, hr]
    rfl
  · rw [cuts_map_cons, hr]
    exact mt cuts_map_cons.mpr hb

theorem Overlaid.of_end {u : Tree} (hl : Table.get? layer key = some u)
    (hr : Table.get? result key =
      mergeValue (sectionMode (.ofPrefix lead)) (Table.get? base key) u) :
    Overlaid lead base layer result [key] := by
  have hend : ∀ m : Mapping, (Tree.map m).at? [key] = Table.get? m key := fun m =>
    Option.bind_fun_some (Table.get? m key)
  refine ⟨by rw [hend, hend, hend, hl, hr]; rfl, fun hc => ?_⟩
  obtain ⟨v, -, ⟨-, hne⟩ | hc⟩ := cuts_map_cons.mp hc
  · exact hne rfl
  · exact not_cuts_nil v hc

theorem Overlaid.under {m merged : Mapping} (hp : path ≠ [])
    (hl : Table.get? layer key = some (.map m)) (hr : Table.get? result key = some (.map merged))
    (h : Overlaid lead (existingEntries (Table.get? base key)) m merged path) :
    Overlaid lead base layer result (key :: path) := by
  refine ⟨?_, fun hc => ?_⟩
  · have hbase := (at?_existingEntries (Table.get? base key) hp).symm
    rw [at?_map_cons, at?_map_cons, at?_map_cons, hl, hr, hbase]
    exact h.node
  · obtain ⟨v, hv, hcut⟩ := cuts_map_cons.mp hc
    obtain rfl := Option.some.inj (hr.symm.trans hv)
    exact hcut.elim (fun hleaf => Bool.noConfusion hleaf.1) h.isOpen

/-- Where a base does not cut the way, the mapping under the first key does not either. -/
theorem not_cuts_existingEntries (hp : path ≠ []) (hb : ¬ Cuts (.map base) (key :: path)) :
    ¬ Cuts (.map (existingEntries (Table.get? base key))) path := by
  intro hc
  cases hbase : Table.get? base key with
  | none =>
    rw [hbase] at hc
    obtain ⟨first, rest, rfl⟩ := List.exists_cons_of_ne_nil hp
    obtain ⟨v, hv, -⟩ := cuts_map_cons.mp hc
    cases hv
  | some b =>
    cases b with
    | scalar _ | seq _ => exact hb (cuts_map_cons.mpr ⟨_, hbase, .inl ⟨rfl, hp⟩⟩)
    | map entries =>
      rw [hbase] at hc
      exact hb (cuts_map_cons.mpr ⟨_, hbase, .inr hc⟩)

end

/-- **One path after one more layer.** -/
theorem overlaid_deepMerge (lead : Option String) (path : List Scalar) (key : Scalar)
    (base layer : Mapping) (hd : Throughout DistinctNode (.map layer))
    (hb : ¬ Cuts (.map base) (key :: path)) (hl : ¬ Cuts (.map layer) (key :: path)) :
    Overlaid lead base layer (deepMerge (sectionMode (.ofPrefix lead)) base layer)
      (key :: path) := by
  have hget : Table.get? (deepMerge (sectionMode (.ofPrefix lead)) base layer) key = _ :=
    get?_deepMerge (throughout_map.mp hd).1 base key
  cases hlayer : Table.get? layer key with
  | none =>
    rw [hlayer] at hget
    exact .of_none hb hlayer hget
  | some u =>
    rw [hlayer] at hget
    match path with
    | [] => exact .of_end hlayer hget
    | next :: rest =>
      have hp : next :: rest ≠ [] := List.cons_ne_nil _ _
      cases u with
      | scalar _ | seq _ => exact absurd (cuts_map_cons.mpr ⟨_, hlayer, .inl ⟨rfl, hp⟩⟩) hl
      | map m =>
        have hbelow : ¬ Cuts (.map m) (next :: rest) := fun hc =>
          hl (cuts_map_cons.mpr ⟨_, hlayer, .inr hc⟩)
        exact .under hp hlayer (hget.trans (mergeValue_map lead _ m))
          (overlaid_deepMerge lead rest next _ m (hd.get? hlayer)
            (not_cuts_existingEntries hp hb) hbelow)

/-- **What the layers have made of a path**: the union of their lists, if there are any. -/
structure Standing (lead : String) (path : List Scalar) (layers : List Mapping) : Prop where
  isOpen : OpenTo path (.map (laid lead layers))
  items : existingItems ((Tree.map (laid lead layers)).at? path) = unions lead (listsAt path layers)
  isList : listsAt path layers ≠ [] → ∃ items, (Tree.map (laid lead layers)).at? path =
    some (.seq items)

section
variable {lead : String} {path : List Scalar} {layers : List Mapping}

theorem Standing.at?_eq (h : Standing lead path layers) (hlist : listsAt path layers ≠ []) :
    (Tree.map (laid lead layers)).at? path = some (.seq (unions lead (listsAt path layers))) := by
  obtain ⟨items, hitems⟩ := h.isList hlist
  rw [← h.items, hitems]
  rfl

theorem Standing.concat (hlead : lead ≠ "") {key : Scalar} {last : Mapping}
    (h : Standing lead (key :: path) layers) (hd : Throughout DistinctNode (.map last))
    (hopen : OpenTo (key :: path) (.map last)) :
    Standing lead (key :: path) (layers ++ [last]) := by
  obtain ⟨hat, hcuts⟩ := overlaid_deepMerge (some lead) path key (laid lead layers) last hd
    h.isOpen.1 hopen.1
  rw [← laid_concat] at hat hcuts
  have hlists : listsAt (key :: path) (layers ++ [last]) =
      listsAt (key :: path) layers ++ (listAt? (key :: path) (.map last)).toList := by
    unfold listsAt
    rw [List.filterMap_append]
    cases hlast : listAt? (key :: path) (.map last) <;> simp [hlast]
  cases hlast : (Tree.map last).at? (key :: path) with
  | none =>
    -- the layer says nothing
    have hsame : (Tree.map (laid lead (layers ++ [last]))).at? (key :: path) =
        (Tree.map (laid lead layers)).at? (key :: path) := by rw [hat, hlast]; rfl
    have hnone : listAt? (key :: path) (.map last) = none := by rw [listAt?, hlast]
    rw [hnone, Option.toList_none, List.append_nil] at hlists
    exact ⟨⟨hcuts, hsame ▸ h.isOpen.2⟩, by rw [hsame, hlists, h.items],
      fun hne => by rw [hsame]; exact h.isList (hlists ▸ hne)⟩
  | some t =>
    rw [hlast] at hat
    rcases hopen.2 t hlast with rfl | ⟨items, rfl⟩
    · -- a null leaves what is there, and stands for itself where nothing is
      have hnone : listAt? (key :: path) (.map last) = none := by rw [listAt?, hlast]
      rw [hnone, Option.toList_none, List.append_nil] at hlists
      rw [overlay, mergeValue_null] at hat
      refine ⟨⟨hcuts, fun u hu => ?_⟩, ?_, fun hne => ?_⟩
      · cases hbase : (Tree.map (laid lead layers)).at? (key :: path) with
        | none => exact .inl (by rw [hat, hbase] at hu; exact (Option.some.inj hu).symm)
        | some b =>
          rw [hat, hbase] at hu
          exact h.isOpen.2 u (hbase.trans hu)
      · rw [hat, hlists, ← h.items]
        cases (Tree.map (laid lead layers)).at? (key :: path) <;> rfl
      · obtain ⟨held, hheld⟩ := h.isList (hlists ▸ hne)
        exact ⟨held, by rw [hat, hheld]; rfl⟩
    · have hsome : listAt? (key :: path) (.map last) = some items := listAt?_eq_some.mpr hlast
      rw [hsome, Option.toList_some] at hlists
      rw [overlay, mergeValue_seq hlead] at hat
      refine ⟨openTo_of_list hat, ?_, fun _ => ⟨_, hat⟩⟩
      rw [hat, hlists, unions_concat, ← h.items]
      rfl

/-- **The list after all layers** is the union of their lists. -/
theorem standing_of_open (hlead : lead ≠ "") {key : Scalar}
    (hd : ∀ m ∈ layers, Throughout DistinctNode (.map m))
    (hopen : ∀ m ∈ layers, OpenTo (key :: path) (.map m)) :
    Standing lead (key :: path) layers := by
  induction layers using List.reverseRecOn with
  | nil =>
    refine ⟨⟨fun hc => ?_, fun u hu => ?_⟩, rfl, fun hne => absurd rfl hne⟩
    · obtain ⟨v, hv, -⟩ := cuts_cons.mp hc
      cases hv
    · cases hu
  | append_singleton layers last ih =>
    have hearlier : Standing lead (key :: path) layers :=
      ih (fun m hm => hd m (List.mem_append_left _ hm))
        fun m hm => hopen m (List.mem_append_left _ hm)
    have hin : last ∈ layers ++ [last] := List.mem_append_right _ List.mem_cons_self
    exact hearlier.concat hlead (hd last hin) (hopen last hin)

end

/-! ## All layers -/

theorem keysDistinct_at? {path : List Scalar} : ∀ {t u : Tree}, KeysDistinct t →
    t.at? path = some u → KeysDistinct u := by
  induction path with
  | nil =>
    intro t u ht hu
    exact Option.some.inj hu ▸ ht
  | cons key path ih =>
    intro t u ht hu
    obtain ⟨v, hv, hrest⟩ := Option.bind_eq_some_iff.mp hu
    obtain ⟨key', hin, -⟩ := Table.mem_of_get? hv
    cases t with
    | map m => exact ih ((Tree.keysDistinct_map.mp ht).2 _ hin) hrest
    | scalar _ | seq _ => cases hin

theorem keysDistinct_of_listsAt {path : List Scalar} {layers : List Mapping}
    (hd : ∀ m ∈ layers, KeysDistinct (.map m)) {items : List Tree}
    (h : items ∈ listsAt path layers) {t : Tree} (ht : t ∈ items) : KeysDistinct t := by
  obtain ⟨m, hm, hlist⟩ := List.mem_filterMap.mp h
  have hitems : KeysDistinct (.seq items) := keysDistinct_at? (hd m hm) (listAt?_eq_some.mp hlist)
  exact Tree.keysDistinct_seq.mp hitems t ht

theorem listsAt_concat {path : List Scalar} {layers : List Mapping} {m : Mapping}
    {items : List Tree} (h : (Tree.map m).at? path = some (.seq items)) :
    listsAt path (layers ++ [m]) = listsAt path layers ++ [items] := by
  rw [listsAt, List.filterMap_append, List.filterMap_cons, listAt?_eq_some.mpr h]
  rfl

theorem listsAt_between {path : List Scalar} {before after : List Mapping} {m : Mapping}
    {items : List Tree} (h : (Tree.map m).at? path = some (.seq items)) :
    listsAt path (before ++ m :: after) = listsAt path before ++ items :: listsAt path after := by
  rw [listsAt, List.filterMap_append, List.filterMap_cons, listAt?_eq_some.mpr h]
  rfl

section
variable {lead : String} {path : List Scalar} {layers : List Mapping} (hlead : lead ≠ "")
  (hd : ∀ m ∈ layers, KeysDistinct (.map m)) (hopen : ∀ m ∈ layers, OpenTo path (.map m))
include hlead hd hopen

theorem at?_laid (hlist : listsAt path layers ≠ []) :
    (Tree.map (laid lead layers)).at? path = some (.seq (unions lead (listsAt path layers))) := by
  cases path with
  | nil => exact absurd (listsAt_nil layers) hlist
  | cons key path =>
    exact (standing_of_open hlead (fun m hm => (hd m hm).throughout) hopen).at?_eq hlist

theorem not_mem_unions_of_held {x : String}
    (h : ∀ held, listAt? path (.map (laid lead layers)) = some held → .str x ∉ held) :
    .str x ∉ unions lead (listsAt path layers) := by
  by_cases hlist : listsAt path layers = []
  · rw [hlist]
    exact List.not_mem_nil
  · exact h _ (listAt?_eq_some.mpr (at?_laid hlead hd hopen hlist))

theorem at?_laid_inert {m : Mapping} {items : List Tree} (hm : KeysDistinct (.map m))
    (hat : (Tree.map m).at? path = some (.seq items))
    (h : ∀ t ∈ items, ∃ x, t = .str (lead ++ x) ∧ .str x ∉ unions lead (listsAt path layers)) :
    (Tree.map (laid lead (layers ++ [m]))).at? path =
      some (.seq (unions lead (listsAt path layers))) := by
  have hlists : listsAt path (layers ++ [m]) = listsAt path layers ++ [items] := listsAt_concat hat
  have hkeys : ∀ l ∈ layers ++ [m], KeysDistinct (.map l) :=
    List.forall_mem_append.mpr ⟨hd, List.forall_mem_singleton.mpr hm⟩
  have hways : ∀ l ∈ layers ++ [m], OpenTo path (.map l) :=
    List.forall_mem_append.mpr ⟨hopen, List.forall_mem_singleton.mpr (openTo_of_list hat)⟩
  rw [at?_laid hlead hkeys hways (by rw [hlists]; simp), hlists, unions_inert h]

end

/-- A layer among others that takes back what is not there yet, with and without doing so. -/
theorem at?_laid_absent {lead x : String} {path : List Scalar} {before after : List Mapping}
    {m m' : Mapping} {front back : List Tree} (hlead : lead ≠ "")
    (hd : ∀ l ∈ before ++ m :: after, KeysDistinct (.map l))
    (hopen : ∀ l ∈ before ++ m :: after, OpenTo path (.map l))
    (hat : (Tree.map m).at? path = some (.seq (front ++ .str (lead ++ x) :: back)))
    (hheld : ∀ held, listAt? path (.map (laid lead before)) = some held → .str x ∉ held)
    (hm' : KeysDistinct (.map m')) (hat' : (Tree.map m').at? path = some (.seq (front ++ back))) :
    (Tree.map (laid lead (before ++ m' :: after))).at? path =
      some (.seq (unions lead (listsAt path (before ++ m :: after)))) := by
  obtain ⟨hdbefore, hdrest⟩ := List.forall_mem_append.mp hd
  obtain ⟨hobefore, horest⟩ := List.forall_mem_append.mp hopen
  have hkeys : ∀ l ∈ before ++ m' :: after, KeysDistinct (.map l) :=
    List.forall_mem_append.mpr
      ⟨hdbefore, List.forall_mem_cons.mpr ⟨hm', (List.forall_mem_cons.mp hdrest).2⟩⟩
  have hways : ∀ l ∈ before ++ m' :: after, OpenTo path (.map l) :=
    List.forall_mem_append.mpr
      ⟨hobefore, List.forall_mem_cons.mpr ⟨openTo_of_list hat', (List.forall_mem_cons.mp horest).2⟩⟩
  have habsent : .str x ∉ unions lead (listsAt path before) :=
    not_mem_unions_of_held hlead hdbefore hobefore hheld
  rw [at?_laid hlead hkeys hways (by rw [listsAt_between hat']; simp), listsAt_between hat',
    listsAt_between hat, unions_absent habsent]

/-- **The last mention decides a list**, at every path where the layers have nothing, or mappings
only with a list or a null at the end. A text that is not marked is in the final list exactly if the
last list that mentions it, marked or not, adds it; no marked text is in it; anything else has a
twin in it exactly if it has one in some list, as it does where it stands in one itself and is no
NaN. A further list that only takes back what is not there changes nothing, and neither does it
matter, in front or in between, whether a list takes back what is not there. -/
theorem lastMention_wins {lead : String} {path : List Scalar} {layers : List Mapping}
    (hlead : lead ≠ "") (hd : ∀ m ∈ layers, KeysDistinct (.map m))
    (hopen : ∀ m ∈ layers, OpenTo path (.map m)) (hlist : listsAt path layers ≠ []) :
    ∃ final, (Tree.map (laid lead layers)).at? path = some (.seq final) ∧
      (∀ x : String, ¬ lead.toList <+: x.toList → (.str x ∈ final ↔
        ∃ items, LastMention lead x (listsAt path layers) items ∧ .str x ∈ items)) ∧
      (∀ x : String, lead.toList <+: x.toList → .str x ∉ final) ∧
      (∀ t : Tree, (∀ s, t ≠ .str s) → ((∃ u ∈ final, twins u t = true) ↔
        ∃ items ∈ listsAt path layers, ∃ u ∈ items, twins u t = true)) ∧
      (∀ items ∈ listsAt path layers, ∀ t ∈ items, (∀ s, t ≠ .str s) → NaNFree t →
        ∃ u ∈ final, twins u t = true) ∧
      (∀ m items, KeysDistinct (.map m) → (Tree.map m).at? path = some (.seq items) →
        (∀ t ∈ items, ∃ x, t = .str (lead ++ x) ∧ .str x ∉ final) →
        (Tree.map (laid lead (layers ++ [m]))).at? path = some (.seq final)) ∧
      (∀ before m after front x back m', layers = before ++ m :: after →
        (Tree.map m).at? path = some (.seq (front ++ .str (lead ++ x) :: back)) →
        (∀ held, listAt? path (.map (laid lead before)) = some held → .str x ∉ held) →
        KeysDistinct (.map m') → (Tree.map m').at? path = some (.seq (front ++ back)) →
        (Tree.map (laid lead (before ++ m' :: after))).at? path = some (.seq final)) := by
  refine ⟨unions lead (listsAt path layers), at?_laid hlead hd hopen hlist,
    fun x hx => mem_unions_text hx _, fun x hx => not_mem_unions_marked hx _,
    fun t ht => exists_twin_unions ht _, fun items hitems t hin ht hnan => ?_,
    fun m items hm hat hinert => at?_laid_inert hlead hd hopen hm hat hinert,
    fun before m after front x back m' hsplit hat hheld hm' hat' => ?_⟩
  · refine (exists_twin_unions ht _).mpr ⟨items, hitems, t, hin, ?_⟩
    exact twins_self (keysDistinct_of_listsAt hd hitems hin) (hnan t .here)
  · subst hsplit
    exact at?_laid_absent hlead hd hopen hat hheld hm' hat'

/-- Telnet is added, taken back with something that is not there, and added again. -/
def telnetLayers : List Mapping := [
  [(.str "pkgs", .seq [.str "telnet", .str "rsh"])],
  [(.str "pkgs", .null)],
  [(.str "pkgs", .seq [.str "--telnet", .str "--ftp", .int 1])],
  [(.str "pkgs", .seq [.str "--rsh", .str "telnet"])]]

/-- Of the packages only the one that the last layer adds is left. -/
theorem lastMention_wins_telnet :
    "--" ≠ "" ∧ (∀ m ∈ telnetLayers, KeysDistinct (.map m)) ∧
    (∀ m ∈ telnetLayers, OpenTo [.str "pkgs"] (.map m)) ∧
    listsAt [.str "pkgs"] telnetLayers ≠ [] ∧
    ∃ final, (Tree.map (laid "--" telnetLayers)).at? [.str "pkgs"] = some (.seq final) ∧
      .str "telnet" ∈ final ∧ .str "rsh" ∉ final ∧ .str "--ftp" ∉ final := by
  have hlead : "--" ≠ "" := by decide
  have hd : ∀ m ∈ telnetLayers, KeysDistinct (.map m) := by decide
  have hopen : ∀ m ∈ telnetLayers, OpenTo [.str "pkgs"] (.map m) := by
    have hlayer : ∀ t : Tree, t = .null ∨ (∃ items, t = .seq items) →
        OpenTo [.str "pkgs"] (.map [(.str "pkgs", t)]) := fun t ht => openTo_of_some rfl ht
    simp [telnetLayers, hlayer]
  have hlist : listsAt [.str "pkgs"] telnetLayers ≠ [] := List.cons_ne_nil _ _
  obtain ⟨final, hfinal, htexts, hmarked, -⟩ := lastMention_wins hlead hd hopen hlist
  refine ⟨hlead, hd, hopen, hlist, final, hfinal, ?_, fun hin => ?_, hmarked _ (by decide)⟩
  · refine (htexts "telnet" (by decide)).mpr ⟨[.str "--rsh", .str "telnet"], ?_, by simp⟩
    exact ⟨[_, _], [], rfl, .inl (by simp), fun _ h => absurd h List.not_mem_nil⟩
  · -- the last list mentions the package, and does not add it
    obtain ⟨items, hlast, hin⟩ := (htexts "rsh" (by decide)).mp hin
    have hsplit : listsAt [.str "pkgs"] telnetLayers =
        [[.str "telnet", .str "rsh"], [.str "--telnet", .str "--ftp", .int 1]] ++
          [[.str "--rsh", .str "telnet"]] := rfl
    rw [hsplit] at hlast
    rcases lastMention_concat.mp hlast with ⟨rfl, -⟩ | ⟨hsilent, -⟩
    · simp at hin
    · exact hsilent (.inr (by simp))

end Compliance
