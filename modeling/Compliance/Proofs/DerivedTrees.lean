import Compliance.Proofs.Runs
import Compliance.Proofs.StoreHistory
import Compliance.Proofs.VisitedNodes

/-! # Derived trees

Documents are checked once, when they are loaded. Whatever the program makes of checked trees passes
the check as well, so every node that it asks for its kind has one.

* `check_deepMerge`, `check_applyConfinement`, `check_unique`, `check_merged`, `check_confinedView`,
  `resolve_checked`: each operation on checked trees gives a checked tree.
* `Tree.ofData`: resolved data as a tree.
* `compile_cases`: a compilation ends as its merge does, if that fails, and else as its settings
  resolve.
* `Derived`: what can be made from given trees by parts and operations; `check_of_derived`: it is
  all checked if they are.
* `KeptByOperations`: the operations on what is accepted end, and what they give is accepted.
* `accepted_closed`: what the check accepts, what it names otherwise, and that all made from loaded
  documents is accepted.
-/

namespace Compliance

open Compliance.Tree

/-! ## Parts -/

theorem check_get? {m : Mapping} (h : (Tree.map m).check = .ok ()) {key : Scalar} {t : Tree}
    (ht : Table.get? m key = some t) : t.check = .ok () := by
  obtain ⟨name, hm, -⟩ := Table.mem_of_get? ht
  exact (check_map.mp h _ hm).2

theorem check_mapField? {m es : Mapping} (h : (Tree.map m).check = .ok ()) {name : String}
    (hf : Tree.mapField? m name = some es) : (Tree.map es).check = .ok () :=
  check_get? h (mapField?_eq_some.mp hf)

theorem check_entries {t : Tree} (h : t.check = .ok ()) : (Tree.map t.entries).check = .ok () := by
  cases t with
  | map es => exact h
  | scalar s => rfl
  | seq items => rfl

theorem check_asList {t v : Tree} (h : t.check = .ok ()) (hv : v ∈ t.asList) :
    v.check = .ok () := by
  unfold Tree.asList at hv
  split at hv
  · cases hv
  · exact check_seq.mp h v hv
  · obtain rfl := List.mem_singleton.mp hv
    exact h

theorem check_of_holds {t u : Tree} (h : t.check = .ok ()) (hu : t.Holds u) : u.check = .ok () := by
  rcases hu with hu | ⟨entries, key, value, hm, he, rfl⟩
  · exact check_eq_ok.mpr fun v hv => check_eq_ok.mp h v (hv.of_within hu)
  · have hkey : (Tree.scalar key).Supported :=
      check_eq_ok.mp h _ (.inr ⟨entries, key, value, hm, he, rfl⟩)
    exact check_scalar.mpr (exists_kind?_iff.mpr hkey)

/-! ## Tables -/

theorem check_of_subset {es kept : Mapping} (h : (Tree.map es).check = .ok ())
    (hsub : ∀ e ∈ kept, e ∈ es) : (Tree.map kept).check = .ok () :=
  check_map.mpr fun e he => check_map.mp h e (hsub e he)

theorem check_insert {m : Mapping} {key : Scalar} {t : Tree} (hm : (Tree.map m).check = .ok ())
    (hk : ∃ k, key.kind? = .ok k) (ht : t.check = .ok ()) :
    (Tree.map (m.insert key t)).check = .ok () := by
  refine check_map.mpr fun e he => ?_
  rcases Table.mem_insert he with hold | ⟨hvalue, hnew | hkey⟩
  · exact check_map.mp hm e hold
  · exact ⟨hnew ▸ hk, hvalue ▸ ht⟩
  · obtain ⟨e', he', heq⟩ := List.mem_map.mp hkey
    exact ⟨heq ▸ (check_map.mp hm e' he').1, hvalue ▸ ht⟩

theorem check_insertAll {pairs : Mapping} : ∀ {m : Mapping}, (Tree.map m).check = .ok () →
    (Tree.map pairs).check = .ok () → (Tree.map (m.insertAll pairs)).check = .ok () := by
  induction pairs with
  | nil => exact fun hm _ => hm
  | cons e r ih =>
    intro m hm hp
    obtain ⟨hkey, hvalue⟩ := check_map.mp hp e List.mem_cons_self
    rw [Table.insertAll_cons]
    exact ih (check_insert hm hkey hvalue)
      (check_of_subset hp fun e' he' => List.mem_cons_of_mem _ he')

/-! ## Merging -/

/-- **A merge of checked mappings is checked.** -/
theorem check_deepMerge (mode : Merge.Mode) {base override : Mapping}
    (hb : (Tree.map base).check = .ok ()) (ho : (Tree.map override).check = .ok ()) :
    (Tree.map (deepMerge mode base override)).check = .ok () :=
  check_of_throughout (Merge.deepMerge_keeps (keeps_knownNode mode) (throughout_of_check hb)
    (throughout_of_check ho))

theorem deepMerge?_ofPrefix (union : Bool) (lead : Option String) (base override : Mapping) :
    deepMerge? ⟨union, .ofPrefix lead⟩ base override =
      .ok (deepMerge ⟨union, .ofPrefix lead⟩ base override) := by
  rw [deepMerge?, fault?_ofPrefix]

theorem eq_deepMerge_of_ok {mode : Merge.Mode} {base override result : Mapping}
    (h : deepMerge? mode base override = .ok result) : result = deepMerge mode base override := by
  unfold deepMerge? at h
  split at h
  · cases h
  · exact (Except.ok.inj h).symm

theorem check_unique {items : List Tree} (h : ∀ t ∈ items, t.check = .ok ()) :
    (Tree.seq (unique items)).check = .ok () :=
  check_seq.mpr fun t ht => h t (mem_unique ht)

theorem check_applyConfinement (file : String) {section_ : Tree} (h : section_.check = .ok ())
    (context : Tree) : (applyConfinement file section_ context).1.check = .ok () := by
  cases section_ with
  | map entries =>
    rw [applyConfinement_map]
    exact check_of_subset h fun e he => (List.mem_filter.mp he).1
  | scalar s => rwa [applyConfinement_of_isMap file rfl]
  | seq items => rwa [applyConfinement_of_isMap file rfl]

/-- **The merged view of checked documents is checked.** -/
theorem check_merged {corpus : Corpus} (h : CheckedDocuments corpus) :
    (Tree.map corpus.merged).check = .ok () := by
  unfold Corpus.merged
  refine List.foldlRecOn (motive := fun m => (Tree.map m).check = .ok ()) corpus.parts _ rfl
    fun m hm part hp => ?_
  obtain ⟨⟨file, document⟩, hd, hpart⟩ := List.mem_filterMap.mp hp
  dsimp only at hpart
  split at hpart
  · cases hpart
  split at hpart
  · obtain rfl := Option.some.inj hpart
    exact check_deepMerge .replace hm (h _ hd)
  · cases hpart

theorem check_mergedSection (knockout : Knockout) {current : Option Tree} {confined : Tree}
    (hcurrent : ∀ t, current = some t → t.check = .ok ()) (h : confined.check = .ok ()) :
    (mergedSection knockout current confined).check = .ok () := by
  cases confined with
  | map entries =>
    refine check_deepMerge _ ?_ h
    unfold Merge.existingEntries
    split
    · exact hcurrent _ rfl
    · rfl
  | scalar s => exact h
  | seq items => exact h

/-- **The merged data of a context is checked**, whatever the marker. -/
theorem check_confinedView {corpus : Corpus} (h : CheckedDocuments corpus) (knockout : Knockout)
    (context : Tree) : (Tree.map (confinedView corpus knockout context)).check = .ok () := by
  unfold confinedView
  refine List.foldlRecOn (motive := fun m => (Tree.map m).check = .ok ()) corpus.sections _ rfl
    fun m hm part hp => ?_
  obtain ⟨entries, hd, he⟩ := mem_sections hp
  obtain ⟨hkey, hvalue⟩ := check_map.mp (h _ hd) _ he
  -- a section keeps the key that came first, and its value is merged over what is there
  rw [viewStep, mergeSection_eq]
  exact check_insert hm hkey
    (check_mergedSection knockout (fun _ ht => check_get? hm ht)
      (check_applyConfinement _ hvalue _))

/-! ## Contexts -/

theorem check_collectConfines {t : Tree} (h : t.check = .ok ()) :
    (Tree.map (collectConfines t)).check = .ok () := by
  have hclauses : ∀ clause ∈ confinedSections.flatMap (sectionConfines t.entries),
      (Tree.map clause).check = .ok () := fun clause hc => by
    obtain ⟨name, -, hc⟩ := List.mem_flatMap.mp hc
    obtain ⟨e, he, hclause⟩ := List.mem_filterMap.mp hc
    rw [← mappingAt] at he
    have hsection := check_get? (check_entries h) (field?_of_mem_mappingAt he)
    exact check_mapField? (check_entries (check_map.mp hsection e he).2) hclause
  unfold collectConfines
  exact List.foldlRecOn (motive := fun m => (Tree.map m).check = .ok ()) _ _ rfl
    fun m hm clause hc => check_insertAll hm (hclauses clause hc)

theorem check_expandConfines {confine context : Mapping} (h : (Tree.map confine).check = .ok ())
    (hc : context ∈ expandConfines confine) : (Tree.map context).check = .ok () := by
  unfold expandConfines at hc
  split at hc
  · cases hc
  obtain ⟨i, -, rfl⟩ := List.mem_map.mp hc
  refine check_map.mpr fun e he => ?_
  obtain ⟨setting, hs, rfl⟩ := List.mem_map.mp he
  obtain ⟨hkey, hvalue⟩ := check_map.mp h setting hs
  refine ⟨hkey, ?_⟩
  dsimp only
  rw [List.getD_eq_getElem?_getD]
  cases hv : setting.2.asList[i % setting.2.asList.length]? with
  | none => rfl
  | some v => exact check_asList hvalue (List.mem_of_getElem? hv)

/-! ## Compilation -/

def Tree.ofData (data : Table String Tree) : Tree := .map (data.map fun e => (.str e.1, e.2))

/-- **Settings with checked values resolve**, to checked data. -/
theorem resolve_checked (profile : Scalar) (context : Tree) {settings : List Setting}
    (h : ∀ s ∈ settings, s.value.check = .ok ()) :
    ∃ data, (resolve profile context settings).outcome = .ok data ∧
      (Tree.ofData data).check = .ok () := by
  obtain ⟨data, hdata, hkept⟩ := resolve_total (keeps_knownNode .unite) (fun _ => KnownNode.kind)
    profile context fun s hs => throughout_of_check (h s hs)
  refine ⟨data, hdata, check_map.mpr fun e he => ?_⟩
  obtain ⟨value, hv, rfl⟩ := List.mem_map.mp he
  exact ⟨⟨.string, rfl⟩, check_of_throughout (hkept value hv)⟩

/-- The settings of the checks that a profile pulls in, whatever the marker. -/
def Compiler.settings (c : Compiler) (profile : Scalar) (context : Tree) : List Setting :=
  let merged := confinedView c.corpus c.knockout context
  (profileChecks merged (c.buildCheckMap merged context).1 profile).map settingOf

theorem check_settings {c : Compiler} (h : CheckedDocuments c.corpus) {profile : Scalar}
    {context : Tree} : ∀ s ∈ c.settings profile context, s.value.check = .ok () := by
  intro s hs
  obtain ⟨check, hc, rfl⟩ := List.mem_map.mp hs
  obtain ⟨name, t, hm, hu⟩ :=
    mem_profileChecks (distinctNode_confinedView c.corpus c.knockout context "checks").here hc
  have hsection := check_get? (check_confinedView h c.knockout context) (field?_of_mem_mappingAt hm)
  exact check_of_throughout (value_of_check (throughout_of_check hsection) hm hu)

/-- A compilation ends as its merge does, if that fails, and else as its settings resolve. -/
theorem compile_cases (c : Compiler) (profile : Scalar) (context : Tree) :
    (∃ fault, (c.mergeConfined context).outcome = .error fault ∧
      (c.compile profile context).outcome = .error fault) ∨
    (c.compile profile context).outcome =
      (resolve profile context (c.settings profile context)).outcome := by
  unfold Compiler.compile Compiler.settings Logged.andThen
  cases hm : (c.mergeConfined context).outcome with
  | error fault => exact .inl ⟨fault, rfl, rfl⟩
  | ok merged =>
    obtain rfl := confinedView_of_ok hm
    refine .inr ?_
    dsimp only [Logged.log]
    cases profileChecks (confinedView c.corpus c.knockout context)
      (c.buildCheckMap (confinedView c.corpus c.knockout context) context).1 profile <;> rfl

theorem marker_of_mergeConfined {corpus : Corpus} {knockout : Knockout} {context : Tree}
    {fault : CompileFault} (h : (mergeConfined corpus knockout context).outcome = .error fault) :
    ∃ marker, fault = .marker marker := by
  obtain ⟨⟨file, key, value⟩, -, merged, hstep⟩ := Logged.fold_error h
  unfold mergeSectionLogged at hstep
  dsimp only at hstep
  split at hstep
  · exact ⟨_, (Except.error.inj hstep).symm⟩
  · cases hstep

/-- **No kind is missing in a compilation** of checked documents, whatever the marker. -/
theorem compile_ne_kind {c : Compiler} (h : CheckedDocuments c.corpus) (profile : Scalar)
    (context : Tree) (fault : KindFault) :
    (c.compile profile context).outcome ≠ .error (.kind fault) := by
  intro hfault
  -- merging asks for no kinds, and resolving asks checked values only
  rcases compile_cases c profile context with ⟨e, hmerge, hcompile⟩ | hresolve
  · obtain rfl := Except.error.inj (hcompile.symm.trans hfault)
    obtain ⟨marker, hmarker⟩ := marker_of_mergeConfined hmerge
    cases hmarker
  · obtain ⟨data, hdata, -⟩ := resolve_checked profile context (check_settings h)
    cases (hresolve.trans hdata).symm.trans hfault

/-- **Compiled data of checked documents is checked**, whatever the marker. -/
theorem check_compile {c : Compiler} (h : CheckedDocuments c.corpus) {profile : Scalar}
    {context : Tree} {data : Table String Tree}
    (hdata : (c.compile profile context).outcome = .ok data) :
    (Tree.ofData data).check = .ok () := by
  rcases compile_cases c profile context with ⟨e, -, hcompile⟩ | hresolve
  · cases hcompile.symm.trans hdata
  · obtain ⟨result, hresult, hchecked⟩ := resolve_checked profile context (check_settings h)
    obtain rfl := Except.ok.inj ((hresolve.trans hresult).symm.trans hdata)
    exact hchecked

/-! ## Closure -/

/-- **What can be made from given trees**: their values and keys, and all that the operations of the
program give for what has been made so far. -/
inductive Derived (Given : Tree → Prop) : Tree → Prop where
  | given {t : Tree} : Given t → Derived Given t
  | part {t u : Tree} : Derived Given t → t.Holds u → Derived Given u
  | merged {mode : Merge.Mode} {base override result : Mapping} :
      Derived Given (.map base) → Derived Given (.map override) →
      deepMerge? mode base override = .ok result → Derived Given (.map result)
  | united {items : List Tree} : (∀ t ∈ items, Derived Given t) →
      Derived Given (.seq (unique items))
  | confined {section_ : Tree} (file : String) (context : Tree) :
      Derived Given section_ → Derived Given (applyConfinement file section_ context).1
  | overlaid {corpus : Corpus} : (∀ e ∈ corpus, Derived Given e.2) →
      Derived Given (.map corpus.merged)
  | viewed {corpus : Corpus} {knockout : Knockout} {context : Tree} {merged : Mapping} :
      (∀ e ∈ corpus, Derived Given e.2) →
      (mergeConfined corpus knockout context).outcome = .ok merged → Derived Given (.map merged)
  | collected {t : Tree} : Derived Given t → Derived Given (.map (collectConfines t))
  | expanded {confine context : Mapping} : Derived Given (.map confine) →
      context ∈ expandConfines confine → Derived Given (.map context)
  | resolved {profile : Scalar} {context : Tree} {settings : List Setting}
      {data : Table String Tree} : (∀ s ∈ settings, Derived Given s.value) →
      (resolve profile context settings).outcome = .ok data → Derived Given (.ofData data)
  | compiled {c : Compiler} {profile : Scalar} {context : Tree} {data : Table String Tree} :
      (∀ e ∈ c.corpus, Derived Given e.2) → (c.compile profile context).outcome = .ok data →
      Derived Given (.ofData data)

/-- **All that is made from checked trees is checked.** -/
theorem check_of_derived {Given : Tree → Prop} (hgiven : ∀ t, Given t → t.check = .ok ()) {t : Tree}
    (h : Derived Given t) : t.check = .ok () := by
  induction h with
  | given h => exact hgiven _ h
  | part _ hu ih => exact check_of_holds ih hu
  | merged _ _ hr hbase hoverride =>
    rw [eq_deepMerge_of_ok hr]
    exact check_deepMerge _ hbase hoverride
  | united _ ih => exact check_unique ih
  | confined file context _ ih => exact check_applyConfinement file ih context
  | overlaid _ ih => exact check_merged ih
  | viewed _ hm ih =>
    rw [confinedView_of_ok hm]
    exact check_confinedView ih _ _
  | collected _ ih => exact check_collectConfines ih
  | expanded _ hc ih => exact check_expandConfines ih hc
  | @resolved profile context settings data _ hr ih =>
    obtain ⟨result, hresult, hchecked⟩ := resolve_checked profile context ih
    obtain rfl := Except.ok.inj (hresult.symm.trans hr)
    exact hchecked
  | compiled _ hc ih => exact check_compile ih hc

/-- **The operations end on what is accepted, and what they give is accepted**, for every way to
merge lists and every text, or none, as a marker. -/
structure KeptByOperations (Accepted : Tree → Prop) : Prop where
  merged : ∀ (union : Bool) (lead : Option String) (base override : Mapping),
    Accepted (.map base) → Accepted (.map override) →
    ∃ result, deepMerge? ⟨union, .ofPrefix lead⟩ base override = .ok result ∧
      Accepted (.map result)
  united : ∀ items, Accepted (.seq items) → Accepted (.seq (unique items))
  confined : ∀ file section_ context, Accepted section_ →
    Accepted (applyConfinement file section_ context).1
  overlaid : ∀ corpus : Corpus, (∀ e ∈ corpus, Accepted e.2) → Accepted (.map corpus.merged)
  viewed : ∀ (corpus : Corpus) (lead : Option String) (context : Tree),
    (∀ e ∈ corpus, Accepted e.2) →
    ∃ merged, (mergeConfined corpus (.ofPrefix lead) context).outcome = .ok merged ∧
      Accepted (.map merged)
  resolved : ∀ (profile : Scalar) (context : Tree) (settings : List Setting),
    (∀ s ∈ settings, Accepted s.value) →
    ∃ data, (resolve profile context settings).outcome = .ok data ∧ Accepted (.ofData data)
  compiled : ∀ (corpus : Corpus) (lead : Option String) (checkType : String) (profile : Scalar)
    (context : Tree), (∀ e ∈ corpus, Accepted e.2) →
    ∃ data, (Compiler.compile ⟨corpus, .ofPrefix lead, checkType⟩ profile context).outcome =
      .ok data ∧ Accepted (.ofData data)

theorem keptByOperations_check : KeptByOperations fun t => t.check = .ok () where
  merged union lead base override hb ho :=
    ⟨_, deepMerge?_ofPrefix union lead base override, check_deepMerge _ hb ho⟩
  united _ h := check_unique (check_seq.mp h)
  confined file _ context h := check_applyConfinement file h context
  overlaid _ h := check_merged h
  viewed corpus lead context h :=
    ⟨_, mergeConfined_ofPrefix corpus lead context, check_confinedView h _ context⟩
  resolved profile context _ h := resolve_checked profile context h
  compiled corpus lead checkType profile context h := by
    obtain ⟨data, hdata⟩ := compile_total h lead checkType profile context
    exact ⟨data, hdata, check_compile (c := ⟨corpus, .ofPrefix lead, checkType⟩) h hdata⟩

/-! ## Loaded documents -/

/-- A document that some load gives, of any store on any disk, after whatever happened before. -/
def Store.Loaded (document : Tree) : Prop :=
  ∃ (dirs : List Tree) (types : List FileType) (disk : Disk) (requests : List Store.Request)
    (paths : List String) (corpus : Corpus) (file : String),
    let σ := (⟨Store.new dirs types, disk⟩ : Store.Site).after requests
    (σ.store.load σ.disk paths).outcome = .ok corpus ∧ (file, document) ∈ corpus

theorem check_of_loaded {document : Tree} (h : Store.Loaded document) :
    document.check = .ok () := by
  obtain ⟨dirs, types, disk, requests, paths, corpus, file, hload, hin⟩ := h
  obtain ⟨hlinked, -⟩ := (⟨Store.new dirs types, disk⟩ : Store.Site).after_linked requests
  exact (Store.loaded_sound (hlinked.sound (Store.sound_new dirs types)) hload _ hin).2.1

/-- **What the check accepts, and that it stays accepted.** A node has a kind unless it is of a
foreign type, and a tree passes if that is so for every value and key in it; else the first node of
a foreign type, in depth-first order and each key before its value, is named in the fault. The
operations end on accepted values and give accepted values. So all that is made from loaded
documents is accepted and has a kind, and no compilation stops for want of one. -/
theorem accepted_closed :
    (∀ t : Tree, (∃ kind, t.kind? = .ok kind) ↔ t.Supported) ∧
    (∀ t : Tree, t.check = .ok () ↔ ∀ u, t.Holds u → u.Supported) ∧
    (∀ t : Tree, t.check ≠ .ok () → ∃ before f after,
      t.nodes = before ++ .foreign f :: after ∧ (∀ u ∈ before, u.Supported) ∧
      t.check = .error (.unsupported f) ∧
      (KindFault.unsupported f).message = "unsupported node type " ++ f.name) ∧
    (∀ t u : Tree, u ∈ t.nodes ↔ t.Holds u) ∧
    KeptByOperations (fun t => t.check = .ok ()) ∧
    (∀ t, Derived Store.Loaded t → t.check = .ok () ∧ ∃ kind, t.kind? = .ok kind) ∧
    ∀ (c : Compiler) (profile : Scalar) (context : Tree),
      (∀ e ∈ c.corpus, Derived Store.Loaded e.2) →
      ∀ fault, (c.compile profile context).outcome ≠ .error (.kind fault) := by
  have hderived : ∀ {t : Tree}, Derived Store.Loaded t → t.check = .ok () := fun h =>
    check_of_derived (fun _ => check_of_loaded) h
  refine ⟨fun _ => exists_kind?_iff, fun _ => check_eq_ok, fun t hfails => ?_, fun _ _ => mem_nodes,
    keptByOperations_check, fun t h => ⟨hderived h, (knownNode_of_check (hderived h)).kind⟩,
    fun c profile context h => compile_ne_kind (fun e he => hderived (h e he)) profile context⟩
  cases hc : t.check with
  | ok u => exact absurd hc hfails
  | error fault =>
    obtain ⟨before, f, after, hsplit, hbefore, rfl⟩ := check_eq_error.mp hc
    exact ⟨before, f, after, hsplit, hbefore, rfl, rfl⟩

/-- A set in a list, in front of a key of bytes. -/
def setInList : Tree :=
  .map [(.str "a", .seq [.int 1, .map [(.str "b", .foreign (.set ["x"] 0))]]),
    (.foreign (.bytes []), .null)]

/-- The load of one file with one profile and one check. -/
def loadedBase : Except LoadFault Corpus :=
  ((Store.new [] [.yaml]).load (Disk.oneFile "base.yaml" Lint.baseText.toUTF8)
    ["base.yaml"]).outcome

/-- A compiler with the marker that is used by default. -/
def defaultCompiler (corpus : Corpus) : Compiler :=
  ⟨corpus, .ofPrefix (some "--"), Schema.parameterCheckType⟩

/-- The set is named, for it comes first; and the file compiles to accepted values. -/
theorem accepted_closed_base :
    setInList.check ≠ .ok () ∧
    (∃ fault, setInList.check = .error fault ∧
      fault.message = "unsupported node type set") ∧
    ∃ corpus data, loadedBase = .ok corpus ∧ (∀ e ∈ corpus, Derived Store.Loaded e.2) ∧
      ((defaultCompiler corpus).compile (.str "base") .null).outcome = .ok data ∧
      data.keys = ["a"] ∧ ∃ kind, (Tree.ofData data).kind? = .ok kind := by
  obtain ⟨-, -, hfirst, -, hkept, hkinds, -⟩ := accepted_closed
  have hset : setInList.check = .error (.unsupported (.set ["x"] 0)) := rfl
  have hfails : setInList.check ≠ .ok () := fun h => nomatch hset.symm.trans h
  refine ⟨hfails, ?_, ?_⟩
  · obtain ⟨before, f, after, -, -, hcheck, hmessage⟩ := hfirst setInList hfails
    obtain rfl := KindFault.unsupported.inj (Except.error.inj (hset.symm.trans hcheck))
    exact ⟨_, hcheck, hmessage⟩
  · have hrun : (loadedBase.toOption.bind fun corpus =>
        ((defaultCompiler corpus).compile (.str "base") .null).outcome.toOption.map Table.keys) =
        some ["a"] := by decide +kernel
    cases hload : loadedBase with
    | error fault =>
      rw [hload] at hrun
      cases hrun
    | ok corpus =>
      have hloaded : ∀ e ∈ corpus, Derived Store.Loaded e.2 := fun e he =>
        .given ⟨[], [.yaml], _, [], ["base.yaml"], corpus, e.1, hload, he⟩
      obtain ⟨data, hdata, -⟩ := hkept.compiled corpus (some "--") Schema.parameterCheckType
        (.str "base") .null fun e he => (hkinds _ (hloaded e he)).1
      have hcompile :
          ((defaultCompiler corpus).compile (.str "base") .null).outcome = .ok data := hdata
      rw [hload, Except.toOption, Option.bind_some, hcompile] at hrun
      exact ⟨corpus, data, rfl, hloaded, hcompile, Option.some.inj hrun,
        (hkinds _ (.compiled hloaded hcompile)).2⟩

end Compliance
