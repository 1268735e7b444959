import Compliance.Proofs.ResolveFacts

/-! # Knockout leaves no trace

A marker takes something back and is gone: no value of merged data is the marker, no list of it
holds a marked text, and no list holds an item twice. The same is true of the values of parameters,
although resolving merges once more and knows no marker.

* `NoTrace p`: what a node looks like where the marker `p` left no trace.
* `keeps_noTrace`: merging with the marker makes such nodes from any override.
* `keeps_noTrace_unite`: merging without it keeps them, since both sides are free of traces.
* `confined_noTrace`: both for every corpus, context and profile.
-/

namespace Compliance

/-- The node is not the marker, and as a list it has no text that starts with it and no item
twice. -/
structure NoTrace (p : String) (t : Tree) : Prop where
  notMarker : t.equals (.str p) = false
  unmarked : ∀ items, t = .seq items → ∀ s, .str s ∈ items → ¬ p.toList <+: s.toList
  apart : ∀ items, t = .seq items → items.Pairwise fun a b => Tree.twins a b = false

theorem noTrace_scalar {p : String} {s : Scalar} (h : Tree.equals (.scalar s) (.str p) = false) :
    NoTrace p (.scalar s) :=
  ⟨h, fun _ he => (Tree.noConfusion he), fun _ he => (Tree.noConfusion he)⟩

theorem noTrace_map (p : String) (entries : Mapping) : NoTrace p (.map entries) :=
  ⟨by simp [Tree.equals, Tree.alike], fun _ he => (Tree.noConfusion he),
    fun _ he => (Tree.noConfusion he)⟩

theorem noTrace_seq {p : String} {items : List Tree}
    (hu : ∀ s, .str s ∈ items → ¬ p.toList <+: s.toList)
    (ha : items.Pairwise fun a b => Tree.twins a b = false) : NoTrace p (.seq items) where
  notMarker := by simp [Tree.equals, Tree.alike]
  unmarked := fun l hl => by
    obtain rfl := Tree.seq.inj hl
    exact hu
  apart := fun l hl => by
    obtain rfl := Tree.seq.inj hl
    exact ha

/-- A list that is there has no marked text; none is there at first. -/
theorem unmarked_of_existing {p s : String} {existing : List Tree}
    (he : existing ≠ [] → NoTrace p (.seq existing)) (hm : .str s ∈ existing) :
    ¬ p.toList <+: s.toList :=
  (he (List.ne_nil_of_mem hm)).unmarked existing rfl s hm

/-- **Merging with a marker leaves no trace of it**, whatever the override holds. -/
theorem keeps_noTrace (p : String) :
    Merge.Keeps (sectionMode (.marker p)) (fun _ => True) (NoTrace p) where
  scalar _ _ hr := noTrace_scalar hr
  replaced _ hu _ _ := Bool.noConfusion hu
  united existing items _ he _ := by
    refine noTrace_seq (fun s hs hlead => ?_) (Merge.pairwise_unionItems _ _ _)
    have hold : .str s ∈ existing := Merge.unionItems_unmarked hs hlead
    exact unmarked_of_existing he hold hlead
  empty := noTrace_map p []
  insert m _ key _ u _ _ _ := noTrace_map p (m.insert key u)
  erase m key _ := noTrace_map p (m.erase key)

theorem keeps_noTrace_unite (p : String) : Merge.Keeps .unite (NoTrace p) (NoTrace p) where
  scalar _ hg _ := hg
  replaced _ hu _ _ := Bool.noConfusion hu
  united existing items _ he hg := by
    refine noTrace_seq (fun s hs => ?_) (Merge.pairwise_unionItems _ _ _)
    rcases Merge.mem_unionItems hs with hold | ⟨hnew, -⟩
    · exact unmarked_of_existing he hold
    · exact hg.unmarked items rfl s hnew
  empty := noTrace_map p []
  insert m _ key _ u _ _ _ := noTrace_map p (m.insert key u)
  erase m key _ := noTrace_map p (m.erase key)

theorem ofPrefix_of_ne {p : String} (hp : p ≠ "") : Knockout.ofPrefix (some p) = .marker p := by
  rw [Knockout.ofPrefix_some, if_neg hp]

theorem noTrace_confinedView {p : String} (hp : p ≠ "") (corpus : Corpus) (context : Tree)
    {key : Scalar} {entries : Mapping}
    (h : (key, .map entries) ∈ confinedView corpus (.ofPrefix (some p)) context) :
    Tree.Throughout (NoTrace p) (.map entries) := by
  rw [ofPrefix_of_ne hp] at h
  exact confinedView_keeps (keeps_noTrace p) (fun _ _ _ _ => trivial) corpus
    (fun _ _ => Tree.throughout_of_forall (fun _ => trivial) _) context _ h

theorem noTrace_pulledChecks {p : String} (hp : p ≠ "") {corpus : Corpus} {checkType : String}
    {profile : Scalar} {context : Tree} {check : UsableCheck}
    (h : check ∈ pulledChecks corpus (some p) checkType profile context) :
    Tree.Throughout (NoTrace p) check.value := by
  have I : Merge.Keeps (sectionMode (.ofPrefix (some p))) (fun _ => True) (NoTrace p) :=
    ofPrefix_of_ne hp ▸ keeps_noTrace p
  exact pulledChecks_keeps I (fun _ _ _ _ => trivial)
    (fun _ _ => Tree.throughout_of_forall (fun _ => trivial) _) h

/-- **Knockout leaves no trace** in the mappings of merged data nor in the value of a parameter. -/
theorem confined_noTrace (corpus : Corpus) (p : String) (context : Tree) (hp : p ≠ "") :
    (∃ merged, (mergeConfined corpus (.ofPrefix (some p)) context).outcome = .ok merged ∧
      ∀ key entries, (key, .map entries) ∈ merged →
        ∀ u, Tree.Reaches u (.map entries) → NoTrace p u) ∧
    ∀ checkType profile data,
      (Compiler.compile ⟨corpus, .ofPrefix (some p), checkType⟩ profile context).outcome =
        .ok data →
      ∀ parameter value, (parameter, value) ∈ data → ∀ u, Tree.Reaches u value → NoTrace p u := by
  refine ⟨⟨_, mergeConfined_ofPrefix corpus (some p) context,
    fun key entries h => noTrace_confinedView hp corpus context h⟩,
    fun checkType profile data h parameter value hd => ?_⟩
  rw [compile_outcome] at h
  refine resolve_keeps (keeps_noTrace_unite p) (fun s hs => ?_) h _ hd
  obtain ⟨check, hc, rfl⟩ := List.mem_map.mp hs
  exact noTrace_pulledChecks hp hc

/-- A document whose check sets `pkgs` to the value, and whose profile asks for the check. -/
def pkgsDocument (value : Tree) : Tree :=
  .map [(.str "profiles", .map [(.str "base", .map [(.str "checks",
      .map [(.str "c", .bool true)])])]),
    (.str "checks", .map [(.str "c", .map [(.str "type", .str Schema.parameterCheckType),
      (.str "settings", .map [(.str "parameter", .str "pkgs"), (.str "value", value)])])])]

/-- A second document takes `telnet` back and names `ftp` twice. -/
theorem confined_noTrace_telnet :
    "--" ≠ "" ∧
    (Compiler.compile ⟨[("a.yaml", pkgsDocument (.seq [.str "telnet", .str "rsh", .str "--ssh"])),
        ("b.yaml", pkgsDocument (.seq [.str "--telnet", .str "ftp", .str "ftp"]))],
        .ofPrefix (some "--"), Schema.parameterCheckType⟩ (.str "base") .null).outcome =
      .ok [("pkgs", .seq [.str "rsh", .str "ftp"])] ∧
    NoTrace "--" (.seq [.str "rsh", .str "ftp"]) := by
  have hp : "--" ≠ "" := by decide
  have hdata : (Compiler.compile ⟨[("a.yaml",
        pkgsDocument (.seq [.str "telnet", .str "rsh", .str "--ssh"])),
        ("b.yaml", pkgsDocument (.seq [.str "--telnet", .str "ftp", .str "ftp"]))],
        .ofPrefix (some "--"), Schema.parameterCheckType⟩ (.str "base") .null).outcome =
      .ok [("pkgs", .seq [.str "rsh", .str "ftp"])] := rfl
  exact ⟨hp, hdata, (confined_noTrace _ "--" .null hp).2 _ _ _ hdata _ _ List.mem_cons_self _ .here⟩

end Compliance
