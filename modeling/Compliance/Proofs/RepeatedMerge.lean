import Compliance.Proofs.ConfinedEntries
import Compliance.Proofs.LastWriter
import Compliance.Proofs.SelfMerge
import Compliance.Proofs.TwinClasses

/-! # An override laid twice

An override laid over a base once more changes nothing: no value, no order of keys and no order of
list items, at any depth. A list that takes back an element which it adds as well is the exception,
for the second time it moves that element to its end.

* `Tree.Settled`: a node of an override that can be laid twice.
* `Merge.unionItems_again`: a union with the same list once more.
* `layEntries_again`: entries laid once more, if none of them makes more of its own result.
* `mergeValue_again`, `deepMerge_again`: merging the same value or override once more.
* `override_repeated`: so a copy of a document behind the document is idle.
-/

namespace Compliance

open Compliance.Tree (KeysDistinct NaNFree Reaches Throughout throughout_map twins)

namespace Tree

/-- No list with a text takes that text back. -/
def Undisputed (lead : Option String) : Tree → Prop
  | .seq items => ∀ p, lead = some p → p ≠ "" → ∀ x, .str x ∈ items → .str (p ++ x) ∉ items
  | _ => True

/-- The node of an override can be laid twice: the keys of a mapping are distinct, and a list has
twins of itself only and takes none of its texts back. -/
def Settled (knockout : Knockout) : Tree → Prop
  | .scalar _ => True
  | .seq items => (∀ t ∈ items, twins t t = true) ∧
      ∀ x, .str x ∈ items → x ∉ items.filterMap knockout.struck?
  | .map entries => Table.Distinct entries

end Tree

open Compliance.Tree (Settled Undisputed)

theorem Knockout.struck?_ofPrefix {lead : Option String} {x : String} {t : Tree}
    (h : (ofPrefix lead).struck? t = some x) : ∃ p, lead = some p ∧ p ≠ "" ∧ t = .str (p ++ x) := by
  cases lead with
  | none => cases h
  | some p =>
    rw [ofPrefix_some] at h
    split at h
    · cases h
    · rename_i hne
      exact ⟨p, rfl, hne, Knockout.struck?_marker.mp h⟩

/-- The nodes of an override without NaN and of distinct keys, whose lists are undisputed. -/
theorem throughout_settled {lead : Option String} {t : Tree} (hkeys : KeysDistinct t)
    (hnan : NaNFree t) (hlists : Throughout (Undisputed lead) t) :
    Throughout (Settled (.ofPrefix lead)) t := fun u hu => by
  have hself := Tree.throughout_selfTwin hkeys hnan u hu
  cases u with
  | scalar s => trivial
  | map entries => exact hkeys.throughout _ hu
  | seq items =>
    refine ⟨hself, fun x hx hstruck => ?_⟩
    obtain ⟨t, ht, hmark⟩ := List.mem_filterMap.mp hstruck
    obtain ⟨p, hp, hne, rfl⟩ := Knockout.struck?_ofPrefix hmark
    exact hlists _ hu p hp hne x hx ht

/-! ## Lists -/

namespace Merge

/-- **A union with the same list once more** takes nothing back, for the first union has left
nothing to take back, and adds nothing, for every item has a twin there. -/
theorem unionItems_again {k : Knockout} {items : List Tree} (existing : List Tree)
    (h : Settled k (.seq items)) :
    unionItems k (unionItems k existing items) items = unionItems k existing items := by
  obtain ⟨hself, hfree⟩ := h
  have hspared : (unionItems k existing items).filter (spared (items.filterMap k.struck?)) =
      unionItems k existing items := by
    refine List.filter_eq_self.mpr fun t ht => ?_
    rcases List.mem_append.mp (mem_unique ht) with hold | hnew
    · exact (List.mem_filter.mp hold).2
    · refine spared_iff.mpr fun x hx heq => ?_
      exact hfree x (heq ▸ (List.mem_filter.mp hnew).1) hx
  have hadded : ∀ t ∈ items.filter fun t => (k.struck? t).isNone,
      ∃ u ∈ unionItems k existing items, twins u t = true := fun t ht => by
    rw [unionItems_eq, exists_twin_unique]
    exact ⟨t, List.mem_append_right _ ht, hself t (List.mem_filter.mp ht).1⟩
  have hfirst : (unionItems k existing items).foldl addUnique [] = unionItems k existing items :=
    unique_of_pairwise (pairwise_unionItems k existing items)
  rw [unionItems_eq k (unionItems k existing items), hspared, unique_eq, List.foldl_append, hfirst]
  exact foldl_addUnique_of_twins hadded

theorem store_get? (m : Mapping) (key : Scalar) : store m key (Table.get? m key) = m := by
  cases hget : Table.get? m key with
  | some t => exact Table.insert_of_get? hget
  | none =>
    refine List.filter_eq_self.mpr fun e he => ?_
    rw [Table.get?_eq_none.mp hget e he]
    rfl

end Merge

/-! ## Entries -/

theorem layEntries_idle {f : Option Tree → Tree → Option Tree} {m : Mapping}
    {entries : List (Scalar × Tree)}
    (h : ∀ e ∈ entries, f (Table.get? m e.1) e.2 = Table.get? m e.1) :
    layEntries f m entries = m := by
  induction entries with
  | nil => rfl
  | cons e r ih =>
    have hstep : layEntries f m (e :: r) =
        layEntries f (Merge.store m e.1 (f (Table.get? m e.1) e.2)) r := rfl
    rw [hstep, h e List.mem_cons_self, Merge.store_get?]
    exact ih fun e he => h e (List.mem_cons_of_mem _ he)

/-- **Entries laid once more change nothing**, if each makes nothing more of its own result. -/
theorem layEntries_again {f : Option Tree → Tree → Option Tree} {entries : Mapping}
    (hd : Table.Distinct entries)
    (h : ∀ e ∈ entries, ∀ current, f (f current e.2) e.2 = f current e.2) (base : Mapping) :
    layEntries f (layEntries f base entries) entries = layEntries f base entries := by
  refine layEntries_idle fun e he => ?_
  rw [get?_layEntries hd, Table.get?_of_mem hd he]
  exact h e he _

/-! ## Values -/

variable {mode : Merge.Mode}

mutual

/-- **A value merged once more changes nothing.** -/
theorem mergeValue_again : ∀ t : Tree, Throughout (Settled mode.knockout) t →
    ∀ current, mergeValue mode (mergeValue mode current t) t = mergeValue mode current t
  | .scalar s, _, current => by
    simp only [mergeValue]
    split
    · rfl
    · split <;> rfl
  | .seq items, h, current => by
    simp only [mergeValue]
    split
    · rfl
    · split
      · exact congrArg (some ∘ Tree.seq) (Merge.unionItems_again _ h.here)
      · rfl
  | .map entries, h, current => by
    obtain ⟨hd, hbelow⟩ := throughout_map.mp h
    simp only [mergeValue]
    split
    · rfl
    · have hagain := layEntries_again hd (mergeValues_again entries hbelow)
        (Merge.existingEntries current)
      simp only [← deepMerge_eq_layEntries] at hagain
      exact congrArg (some ∘ Tree.map) hagain

theorem mergeValues_again : ∀ entries : List (Scalar × Tree),
    (∀ e ∈ entries, Throughout (Settled mode.knockout) e.2) →
    ∀ e ∈ entries, ∀ current,
      mergeValue mode (mergeValue mode current e.2) e.2 = mergeValue mode current e.2
  | [], _ => fun _ he => absurd he List.not_mem_nil
  | (_, t) :: r, h => List.forall_mem_cons.mpr
      ⟨mergeValue_again t (h _ List.mem_cons_self),
        mergeValues_again r fun e he => h e (List.mem_cons_of_mem _ he)⟩

end

/-- **An override laid once more changes nothing.** -/
theorem deepMerge_again {override : Mapping}
    (h : Throughout (Settled mode.knockout) (.map override)) (base : Mapping) :
    deepMerge mode (deepMerge mode base override) override = deepMerge mode base override := by
  obtain ⟨hd, hbelow⟩ := throughout_map.mp h
  simp only [deepMerge_eq_layEntries]
  exact layEntries_again hd (mergeValues_again override hbelow) base

/-! ## Documents -/

/-- A document laid once more over the merged data of a context changes nothing. -/
theorem layDocument_again {knockout : Knockout} {document : Mapping}
    (h : Throughout (Settled knockout) (.map document)) (context : Tree) (merged : Mapping) :
    layDocument knockout context (layDocument knockout context merged document) document =
      layDocument knockout context merged document := by
  obtain ⟨hd, hbelow⟩ := throughout_map.mp h
  refine layEntries_again hd (fun e he current => ?_) merged
  obtain ⟨key, value⟩ := e
  cases value with
  | scalar s => rw [applyConfinement_of_isMap _ rfl]; rfl
  | seq items => rw [applyConfinement_of_isMap _ rfl]; rfl
  | map entries =>
    obtain ⟨hnode, hvalues⟩ := throughout_map.mp (hbelow _ he)
    have hsection : Throughout (Settled knockout) (.map (entries.filter (keptUnder "" context))) :=
      throughout_map.mpr ⟨hnode.filter _, fun e he => hvalues e (List.mem_filter.mp he).1⟩
    have hagain (base : Mapping) :
        deepMerge (sectionMode knockout) (deepMerge (sectionMode knockout) base
          (entries.filter (keptUnder "" context))) (entries.filter (keptUnder "" context)) =
        deepMerge (sectionMode knockout) base (entries.filter (keptUnder "" context)) :=
      deepMerge_again hsection base
    rw [applyConfinement_map]
    exact congrArg (some ∘ Tree.map) (hagain (Merge.existingEntries current))

/-- A corpus in which a document that takes part comes twice in a row makes of its layers what the
corpus without the copy makes, whatever the name of the copy. -/
theorem foldl_parts_copy {lay : Mapping → Mapping → Mapping} {document : Mapping}
    (h : ∀ base, lay (lay base document) document = lay base document) {file : String}
    (hfile : file ≠ mergedName) (copy : String) (front back : Corpus) :
    ((Corpus.parts (front ++ (file, .map document) :: (copy, .map document) :: back)).map
        (·.2)).foldl lay [] =
      ((Corpus.parts (front ++ (file, .map document) :: back)).map (·.2)).foldl lay [] := by
  by_cases hcopy : copy = mergedName
  · -- a copy under the name of the merged view takes no part
    simp [Corpus.parts, hfile, hcopy]
  · have hdoubled : (Corpus.parts
        (front ++ (file, .map document) :: (copy, .map document) :: back)).map (·.2) =
        front.parts.map (·.2) ++ document :: document :: back.parts.map (·.2) := by
      simp [Corpus.parts, hfile, hcopy]
    have hsingle : (Corpus.parts (front ++ (file, .map document) :: back)).map (·.2) =
        front.parts.map (·.2) ++ document :: back.parts.map (·.2) := by
      simp [Corpus.parts, hfile]
    simp only [hdoubled, hsingle, List.foldl_append, List.foldl_cons, h]

/-- **An override laid twice.** Merging it once more changes nothing, in either mode and with any
marker, as long as none of its lists takes back what it adds. So a copy right behind a document that
takes part changes neither the merged data of any context nor the merged view. -/
theorem override_repeated (lead : Option String) (override : Mapping)
    (hkeys : KeysDistinct (.map override)) (hnan : NaNFree (.map override))
    (hlists : Throughout (Undisputed lead) (.map override)) :
    (∀ (union : Bool) (base : Mapping),
      deepMerge ⟨union, .ofPrefix lead⟩ (deepMerge ⟨union, .ofPrefix lead⟩ base override) override =
        deepMerge ⟨union, .ofPrefix lead⟩ base override) ∧
    ∀ (front back : Corpus) (file copy : String), file ≠ mergedName →
      let single := front ++ (file, .map override) :: back
      let doubled := front ++ (file, .map override) :: (copy, .map override) :: back
      (∀ context, ∃ merged, (mergeConfined single (.ofPrefix lead) context).outcome = .ok merged ∧
        (mergeConfined doubled (.ofPrefix lead) context).outcome = .ok merged) ∧
      doubled.merged = single.merged := by
  have hsettled : Throughout (Settled (.ofPrefix lead)) (.map override) :=
    throughout_settled hkeys hnan hlists
  have hplain : Throughout (Settled (.ofPrefix none)) (.map override) :=
    throughout_settled hkeys hnan fun u _ => by
      cases u with
      | seq items => exact fun p hp => nomatch hp
      | scalar | map => trivial
  refine ⟨fun union base => deepMerge_again hsettled base,
    fun front back file copy hfile => ⟨fun context => ?_, ?_⟩⟩
  · refine ⟨_, mergeConfined_ofPrefix _ lead context, ?_⟩
    rw [mergeConfined_ofPrefix, confinedView_eq_foldl, confinedView_eq_foldl]
    exact congrArg Except.ok
      (foldl_parts_copy (layDocument_again hsettled context) hfile copy front back)
  · rw [Corpus.merged_eq, Corpus.merged_eq]
    exact foldl_parts_copy (deepMerge_again hplain) hfile copy front back

/-- A check with a list, a null and a marker in it. -/
def strikingLayer : Mapping :=
  [(.str "checks", .map [(.str "c", .map [(.str "pkgs", .seq [.str "--telnet", .str "ftp"]),
    (.str "owner", .null), (.str "mode", .str "--")])])]

/-- The check as it was before. -/
def struckLayer : Mapping :=
  [(.str "checks", .map [(.str "c", .map [(.str "mode", .str "0644"), (.str "owner", .str "root"),
    (.str "pkgs", .seq [.str "telnet", .str "rsh"])])])]

/-- The copy neither takes `telnet` back nor adds `ftp` again, and a removed key stays away. -/
theorem override_repeated_telnet :
    KeysDistinct (.map strikingLayer) ∧ NaNFree (.map strikingLayer) ∧
    Throughout (Undisputed (some "--")) (.map strikingLayer) ∧ "b.yaml" ≠ mergedName ∧
    (mergeConfined [("a.yaml", .map struckLayer), ("b.yaml", .map strikingLayer),
        ("c.yaml", .map strikingLayer)] (.ofPrefix (some "--")) .null).outcome =
      .ok [(.str "checks", .map [(.str "c", .map [(.str "owner", .str "root"),
        (.str "pkgs", .seq [.str "rsh", .str "ftp"])])])] := by
  have hkeys : KeysDistinct (.map strikingLayer) := by decide
  have hnan : NaNFree (.map strikingLayer) := by decide
  have hlists : Throughout (Undisputed (some "--")) (.map strikingLayer) := by
    simp [strikingLayer, throughout_map, Tree.throughout_seq, Tree.throughout_scalar, Undisputed]
  have hfile : "b.yaml" ≠ mergedName := by decide
  obtain ⟨merged, hsingle, hdoubled⟩ :=
    ((override_repeated (some "--") strikingLayer hkeys hnan hlists).2
      [("a.yaml", .map struckLayer)] [] "b.yaml" "c.yaml" hfile).1 .null
  have hmerged : Except.ok merged = Except.ok [(.str "checks", .map [(.str "c",
      .map [(.str "owner", .str "root"), (.str "pkgs", .seq [.str "rsh", .str "ftp"])])])] :=
    hsingle.symm.trans rfl
  exact ⟨hkeys, hnan, hlists, hfile, hdoubled.trans hmerged⟩

-- a list that takes back what it adds moves it to the end the second time
example : let layer : Mapping := [(.str "l", .seq [.str "a", .str "--a", .str "b"])]
    deepMerge (sectionMode (.marker "--")) [] layer = [(.str "l", .seq [.str "a", .str "b"])] ∧
    deepMerge (sectionMode (.marker "--")) (deepMerge (sectionMode (.marker "--")) [] layer) layer =
      [(.str "l", .seq [.str "b", .str "a"])] :=
  ⟨rfl, rfl⟩

/-- **A document under the name of the merged view** takes no part, and its copy under another name
does: there the copy is not idle. -/
theorem override_repeated_reserved :
    KeysDistinct (.map [(.str "a", .int 1)]) ∧ NaNFree (.map [(.str "a", .int 1)]) ∧
    Throughout (Undisputed none) (.map [(.str "a", .int 1)]) ∧ mergedName ≠ "b.yaml" ∧
    Corpus.merged [(mergedName, .map [(.str "a", .int 1)]), ("b.yaml", .map [(.str "a", .int 1)])] ≠
      Corpus.merged [(mergedName, .map [(.str "a", .int 1)])] := by
  have hlists : Throughout (Undisputed none) (.map [(.str "a", .int 1)]) := by
    simp [throughout_map, Tree.throughout_scalar, Undisputed]
  have hlone : Corpus.merged [(mergedName, .map [(.str "a", .int 1)])] = [] := rfl
  have hcopied : Corpus.merged [(mergedName, .map [(.str "a", .int 1)]),
      ("b.yaml", .map [(.str "a", .int 1)])] = [(.str "a", .int 1)] := rfl
  refine ⟨by decide, by decide, hlists, by decide, ?_⟩
  rw [hlone, hcopied]
  exact List.cons_ne_nil _ _

end Compliance
