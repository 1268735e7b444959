import Compliance.Hiera.ConfinedMerge
import Compliance.Proofs.LoggedFacts
import Compliance.Proofs.MergeInvariant
import Compliance.Proofs.UnionFacts

/-! # The merged data of a context as a fold

* `confinedView`: the merged data without messages, a fold over the sections of all documents.
* `mergeConfined_ofPrefix`: with a text, or nothing, as its marker the merge ends, and its result is
  this fold; `confinedView_of_ok`: so it is with any marker, if the merge ends.
* `distinct_confinedView`: each section stands once in the result.
* `layDocument`, `confinedView_eq_foldl`: the fold document by document.
* `confinedView_keeps`: what merging keeps holds of every section that is a mapping; any other
  top-level value is one that a document holds.
* `mappingAt_keeps`: it holds of the section of a name in particular.
* `distinctNode_confinedView`: the mappings in its sections have distinct keys.
-/

namespace Compliance

/-- The merged data with one section of a document laid over it, as far as the context keeps it. -/
def viewStep (knockout : Knockout) (context : Tree) (merged : Mapping)
    (part : String × Scalar × Tree) : Mapping :=
  mergeSection knockout merged part.2.1 (applyConfinement part.1 part.2.2 context).1

/-- The merged data of a context. -/
def confinedView (corpus : Corpus) (knockout : Knockout) (context : Tree) : Mapping :=
  corpus.sections.foldl (viewStep knockout context) []

/-! ## The merge ends -/

theorem fault?_ofPrefix (lead : Option String) (override : Mapping) (union : Bool) :
    Merge.fault? ⟨union, .ofPrefix lead⟩ override = none := by
  unfold Merge.fault?
  split
  · rename_i marker h
    exact absurd h (Knockout.ofPrefix_usable lead marker)
  · rfl

theorem mergeSectionLogged_ofPrefix (lead : Option String) (context : Tree) (file : String)
    (merged : Mapping) (key : Scalar) (value : Tree) :
    (mergeSectionLogged (.ofPrefix lead) context file merged key value).outcome =
      .ok (viewStep (.ofPrefix lead) context merged (file, key, value)) := by
  have hf : sectionFault? (.ofPrefix lead) (applyConfinement file value context).1 = none := by
    unfold sectionFault?
    split
    · exact fault?_ofPrefix lead _ true
    · rfl
  unfold mergeSectionLogged
  simp only [hf]
  rfl

/-- **The merge of a context ends with the fold over all sections.** -/
theorem mergeConfined_ofPrefix (corpus : Corpus) (lead : Option String) (context : Tree) :
    (mergeConfined corpus (.ofPrefix lead) context).outcome =
      .ok (confinedView corpus (.ofPrefix lead) context) := by
  unfold mergeConfined confinedView
  generalize corpus.sections = sections
  generalize ([] : Mapping) = start
  induction sections generalizing start with
  | nil => rfl
  | cons part sections ih =>
    obtain ⟨file, key, value⟩ := part
    refine Logged.andThen_ok.mpr
      ⟨_, mergeSectionLogged_ofPrefix lead context file start key value, ?_⟩
    rw [List.foldl_cons]
    exact ih _

/-- Whatever the marker, a merge that ends has this fold as its result. -/
theorem confinedView_of_ok {corpus : Corpus} {knockout : Knockout} {context : Tree}
    {merged : Mapping} (h : (mergeConfined corpus knockout context).outcome = .ok merged) :
    merged = confinedView corpus knockout context := by
  unfold mergeConfined at h
  unfold confinedView
  generalize corpus.sections = sections at h ⊢
  generalize ([] : Mapping) = start at h ⊢
  induction sections generalizing start with
  | nil => exact (Except.ok.inj h).symm
  | cons part sections ih =>
    obtain ⟨next, hstep, hrest⟩ := Logged.andThen_ok.mp h
    have hnext : next = viewStep knockout context start part := by
      unfold mergeSectionLogged at hstep
      dsimp only at hstep
      split at hstep
      · cases hstep
      · exact (Except.ok.inj hstep).symm
    rw [List.foldl_cons, ← hnext]
    exact ih next hrest

/-! ## Sections -/

/-- A section of merged data after one more section of a document. -/
def mergedSection (knockout : Knockout) (current : Option Tree) (confined : Tree) : Tree :=
  match confined with
  | .map entries => .map (deepMerge (sectionMode knockout) (Merge.existingEntries current) entries)
  | value => value

theorem mergeSection_eq (knockout : Knockout) (merged : Mapping) (key : Scalar) (confined : Tree) :
    mergeSection knockout merged key confined =
      merged.insert key (mergedSection knockout (merged.get? key) confined) := by
  cases confined <;> rfl

theorem distinct_confinedView (corpus : Corpus) (knockout : Knockout) (context : Tree) :
    (confinedView corpus knockout context).Distinct := by
  unfold confinedView
  refine List.foldlRecOn corpus.sections (viewStep knockout context) List.Pairwise.nil
    fun merged hd part _ => ?_
  rw [viewStep, mergeSection_eq]
  exact Table.distinct_insert hd _ _

/-- The context keeps an entry; a null context keeps all. -/
def keptUnder (file : String) (context : Tree) (e : Scalar × Tree) : Bool :=
  match context with
  | .null => true
  | context => !(shouldDelete file e.1 e.2 context).1

/-- Whether an entry is kept is for its value alone to say. -/
theorem keptUnder_key (file : String) (context : Tree) (k l : Scalar) (t : Tree) :
    keptUnder file context (k, t) = keptUnder file context (l, t) := by
  unfold keptUnder shouldDelete
  split
  · rfl
  · dsimp only
    split <;> rfl

/-- **The entries of a mapping that a context keeps**, in order. -/
theorem applyConfinement_map (file : String) (entries : Mapping) (context : Tree) :
    (applyConfinement file (.map entries) context).1 =
      .map (entries.filter (keptUnder file context)) := by
  unfold applyConfinement
  split
  · have hall : entries.filter (keptUnder file .null) = entries :=
      List.filter_eq_self.mpr fun _ _ => rfl
    rw [hall]
  · rename_i context _ _ es hnull heq
    obtain rfl := Tree.map.inj heq
    have hkept : ∀ e, keptUnder file context e = !(shouldDelete file e.1 e.2 context).1 :=
      fun e => by
        unfold keptUnder
        split
        · exact absurd rfl hnull
        · rfl
    have hfun : keptUnder file context = fun e => !(shouldDelete file e.1 e.2 context).1 :=
      funext hkept
    rw [hfun]
    simp only [List.filter_map, List.map_map]
    exact congrArg Tree.map (List.map_id _)
  · rename_i h
    exact absurd rfl (h entries)

theorem applyConfinement_of_isMap (file : String) {value : Tree} (h : value.isMap = false)
    (context : Tree) : (applyConfinement file value context).1 = value := by
  unfold applyConfinement
  split
  · rfl
  · cases h
  · rfl

/-! ## Document by document -/

theorem applyConfinement_file (file other : String) (value context : Tree) :
    (applyConfinement file value context).1 = (applyConfinement other value context).1 := by
  cases value with
  | map entries =>
    have hkept : keptUnder file context = keptUnder other context := funext fun e => by
      unfold keptUnder shouldDelete
      split
      · rfl
      · split <;> rfl
    rw [applyConfinement_map, applyConfinement_map, hkept]
  | scalar s => rw [applyConfinement_of_isMap _ rfl, applyConfinement_of_isMap _ rfl]
  | seq items => rw [applyConfinement_of_isMap _ rfl, applyConfinement_of_isMap _ rfl]

/-- The merged data of a context with one more document laid over it, whose name does not matter. -/
def layDocument (knockout : Knockout) (context : Tree) (merged document : Mapping) : Mapping :=
  layEntries
    (fun current value =>
      some (mergedSection knockout current (applyConfinement "" value context).1))
    merged document

/-- **The merged data of a context, document by document.** -/
theorem confinedView_eq_foldl (corpus : Corpus) (knockout : Knockout) (context : Tree) :
    confinedView corpus knockout context =
      (corpus.parts.map (·.2)).foldl (layDocument knockout context) [] := by
  unfold confinedView Corpus.sections
  rw [List.foldl_flatMap, List.foldl_map]
  congr 1
  funext merged ⟨file, document⟩
  unfold layDocument layEntries
  rw [List.foldl_map]
  congr 1
  funext m e
  rw [viewStep, mergeSection_eq, applyConfinement_file file ""]
  rfl

/-! ## What merging keeps -/

/-- A section of merged data is a kept mapping, or a value as a document has it. -/
def SectionKept (Given Kept : Tree → Prop) (value : Tree) : Prop :=
  if value.isMap then Tree.Throughout Kept value else Tree.Throughout Given value

variable {Given Kept : Tree → Prop} {knockout : Knockout}

theorem viewStep_keeps (I : Merge.Keeps (sectionMode knockout) Given Kept)
    (hsub : ∀ es kept : Mapping, Given (.map es) → (∀ e ∈ kept, e ∈ es) → Given (.map kept))
    {merged : Mapping} (hm : ∀ e ∈ merged, SectionKept Given Kept e.2) {context : Tree}
    {part : String × Scalar × Tree} (hp : Tree.Throughout Given part.2.2) :
    ∀ e ∈ viewStep knockout context merged part, SectionKept Given Kept e.2 := by
  obtain ⟨file, key, value⟩ := part
  intro e he
  rw [viewStep, mergeSection_eq] at he
  rcases Table.mem_insert he with hold | ⟨hnew, -⟩
  · exact hm e hold
  rw [hnew]
  cases value with
  | map entries =>
    have hmem : ∀ e ∈ entries.filter (keptUnder file context), e ∈ entries :=
      fun e he => (List.mem_filter.mp he).1
    obtain ⟨hnode, hbelow⟩ := Tree.throughout_map.mp hp
    simp only [applyConfinement_map]
    refine Merge.deepMerge_keeps I (Merge.existingEntries_keeps I fun es hes => ?_)
      (Tree.throughout_map.mpr ⟨hsub _ _ hnode hmem, fun e he => hbelow e (hmem e he)⟩)
    obtain ⟨k, hin, -⟩ := Table.mem_of_get? hes
    exact hm _ hin
  | scalar s =>
    rw [applyConfinement_of_isMap file rfl]
    exact hp
  | seq items =>
    rw [applyConfinement_of_isMap file rfl]
    exact hp

theorem mem_sections {corpus : Corpus} {part : String × Scalar × Tree}
    (h : part ∈ corpus.sections) :
    ∃ entries, (part.1, .map entries) ∈ corpus ∧ part.2 ∈ entries := by
  obtain ⟨⟨file, entries⟩, hp, he⟩ := List.mem_flatMap.mp h
  obtain ⟨⟨name, document⟩, hd, hpart⟩ := List.mem_filterMap.mp hp
  obtain ⟨e, hm, rfl⟩ := List.mem_map.mp he
  dsimp only at hpart
  split at hpart
  · cases hpart
  split at hpart
  · obtain ⟨rfl, rfl⟩ := Prod.mk.inj (Option.some.inj hpart)
    exact ⟨_, hd, hm⟩
  · cases hpart

theorem exists_part_of_mem_sections {corpus : Corpus} {found : String × Scalar × Tree}
    (h : found ∈ corpus.sections) : ∃ part ∈ corpus.parts, part.1 = found.1 ∧ found.2 ∈ part.2 := by
  obtain ⟨⟨file, entries⟩, hpart, hfound⟩ := List.mem_flatMap.mp h
  obtain ⟨e, he, rfl⟩ := List.mem_map.mp hfound
  exact ⟨(file, entries), hpart, rfl, he⟩

/-- **What merging keeps holds of the merged data**, section by section. -/
theorem confinedView_keeps (I : Merge.Keeps (sectionMode knockout) Given Kept)
    (hsub : ∀ es kept : Mapping, Given (.map es) → (∀ e ∈ kept, e ∈ es) → Given (.map kept))
    (corpus : Corpus) (hc : ∀ part ∈ corpus.sections, Tree.Throughout Given part.2.2)
    (context : Tree) :
    ∀ e ∈ confinedView corpus knockout context, SectionKept Given Kept e.2 := by
  unfold confinedView
  refine List.foldlRecOn (motive := fun merged => ∀ e ∈ merged, SectionKept Given Kept e.2)
    corpus.sections (viewStep knockout context) (fun e he => absurd he List.not_mem_nil)
    fun merged hm part hp => ?_
  exact viewStep_keeps I hsub hm (hc part hp)

theorem mappingAt_keeps (I : Merge.Keeps (sectionMode knockout) Given Kept)
    (hsub : ∀ es kept : Mapping, Given (.map es) → (∀ e ∈ kept, e ∈ es) → Given (.map kept))
    (corpus : Corpus) (hc : ∀ part ∈ corpus.sections, Tree.Throughout Given part.2.2)
    (context : Tree) (name : String) :
    Tree.Throughout Kept (.map (Tree.mappingAt (confinedView corpus knockout context) name)) := by
  unfold Tree.mappingAt
  cases hf : Tree.mapField? (confinedView corpus knockout context) name with
  | none => exact Tree.throughout_map.mpr ⟨I.empty, fun _ he => absurd he List.not_mem_nil⟩
  | some es =>
    obtain ⟨k, hin, -⟩ := Table.mem_of_get? (Tree.mapField?_eq_some.mp hf)
    exact confinedView_keeps I hsub corpus hc context _ hin

/-! ## Distinct keys at every depth -/

theorem keeps_distinctNode (mode : Merge.Mode) :
    Merge.Keeps mode (fun _ => True) Tree.DistinctNode where
  scalar _ _ _ := trivial
  replaced _ _ _ _ := trivial
  united _ _ _ _ _ := trivial
  empty := List.Pairwise.nil
  insert _ _ _ _ _ hm _ _ := Table.distinct_insert hm _ _
  erase _ _ hm := Table.distinct_erase hm _

/-- **The mappings of merged data have distinct keys**, whatever the documents hold. -/
theorem distinctNode_confinedView (corpus : Corpus) (knockout : Knockout) (context : Tree)
    (name : String) :
    Tree.Throughout Tree.DistinctNode
      (.map (Tree.mappingAt (confinedView corpus knockout context) name)) :=
  mappingAt_keeps (keeps_distinctNode (sectionMode knockout)) (fun _ _ _ _ => trivial) corpus
    (fun _ _ => Tree.throughout_of_forall (fun _ => trivial) _) context name

end Compliance
