import Compliance.Lint
import Compliance.Proofs.CompileMessages
import Compliance.Proofs.Loading
import Compliance.Proofs.ResolveFacts

/-! # Runs do not fail

A run over paths that are there, under a configuration of texts, starts and answers every question,
unless it meets names that are too long for the system. The reason is spread over the program: the
check at loading, which merging keeps up; the conditions on a usable check; and the empty value that
leaves no context to count through.

* `Lint.TextConfig`: a configuration of texts. `Lint.Opens`: the system refuses nothing that a run
  looks at.
* `Lint.Request`, `Lint.serve`: what a run is asked for after it has started.
* `Lint.Settled`: all that cannot go wrong in a run.
* `settled_of_checked`: a run over checked documents is settled.
* `start_settled`: a run starts, and is settled.
-/

namespace Compliance

/-! ## Contexts -/

/-- **No context is counted round an empty value**: such a value leaves no context at all. -/
theorem asList_pos_of_contextCount {confine : Mapping} {i : Nat} (h : i < contextCount confine)
    {e : Scalar × Tree} (he : e ∈ confine) : 0 < e.2.asList.length := by
  rw [contextCount, ← List.prod_eq_foldl_nat] at h
  have hpositive := List.prod_pos_iff_forall_pos_nat.mp (Nat.zero_lt_of_lt h)
  exact hpositive _ (List.mem_map.mpr ⟨e, he, rfl⟩)

/-! ## Compilation -/

open Compliance.Tree (KnownNode keeps_knownNode knownNode_of_subset)

theorem knownNode_sections {corpus : Corpus} (h : CheckedDocuments corpus) :
    ∀ part ∈ corpus.sections, Tree.Throughout KnownNode part.2.2 := fun part hp => by
  obtain ⟨entries, hd, he⟩ := mem_sections hp
  exact (Tree.throughout_map.mp (Tree.throughout_of_check (h _ hd))).2 _ he

theorem knownNode_pulledChecks {corpus : Corpus} (h : CheckedDocuments corpus)
    {lead : Option String} {checkType : String} {profile : Scalar} {context : Tree}
    {check : UsableCheck} (hc : check ∈ pulledChecks corpus lead checkType profile context) :
    Tree.Throughout KnownNode check.value :=
  pulledChecks_keeps (keeps_knownNode _) (fun _ _ => knownNode_of_subset) (knownNode_sections h) hc

theorem resolve_pulledChecks {corpus : Corpus} (h : CheckedDocuments corpus)
    {lead : Option String} {checkType : String} {profile : Scalar} {context : Tree}
    {checks : List UsableCheck}
    (hc : ∀ check ∈ checks, check ∈ pulledChecks corpus lead checkType profile context) :
    ∃ data, (resolve profile context (checks.map Compiler.settingOf)).outcome = .ok data ∧
      DataKept KnownNode data := by
  refine resolve_total (keeps_knownNode .unite) (fun _ => KnownNode.kind) profile context ?_
  intro s hs
  obtain ⟨check, hin, rfl⟩ := List.mem_map.mp hs
  exact knownNode_pulledChecks h (hc check hin)

/-- **A corpus of checked documents compiles**, for every profile and context. -/
theorem compile_total {corpus : Corpus} (h : CheckedDocuments corpus) (lead : Option String)
    (checkType : String) (profile : Scalar) (context : Tree) :
    ∃ data, (Compiler.compile ⟨corpus, .ofPrefix lead, checkType⟩ profile context).outcome =
      .ok data := by
  obtain ⟨data, hdata, -⟩ := resolve_pulledChecks h fun check hc => hc
  exact ⟨data, (compile_outcome corpus lead checkType profile context).trans hdata⟩

namespace Lint

/-! ## Requests -/

/-- What a run can be asked for. -/
inductive Request where
  | compile (profile : Scalar) (context : Tree)
  | validate

/-- What a request records, and the fault that it ends with if there is one. -/
def serve (l : Lint) : Request → Logged CompileFault Unit
  | .compile profile context => (l.compile profile context).andThen fun _ => .done ()
  | .validate => .log l.validate

/-- **What cannot go wrong in a run.** -/
structure Settled (l : Lint) : Prop where
  /-- Every document has passed the check. -/
  checked : ∀ e ∈ l.corpus, e.2.check = .ok ()
  /-- No sequence of requests ends with a fault. -/
  served : ∀ requests : List Request, (Logged.each requests l.serve).outcome = .ok ()
  /-- A validation reports what the compilations report, and nothing else. -/
  validated : ∀ names, l.profiles = some names →
    l.validate = names.flatMap fun profile => (l.compileAll profile).messages
  /-- The messages of a profile do not say that its compilation failed. -/
  compiled : ∀ profile, ∀ m ∈ l.profileMessages profile, m.level = .error →
    ¬ (profile.text ++ ": failed to compile Hiera data: ").toList <+: m.text.toList
  /-- A check that gets as far as resolving has settings with a parameter and a value. -/
  usable : ∀ profile context merged, (l.compiler.mergeConfined context).outcome = .ok merged →
    ∀ check ∈ profileChecks merged (l.compiler.buildCheckMap merged context).1 profile,
      ∃ settings, Tree.mapField? check.body "settings" = some settings ∧
        Tree.field? settings "parameter" = some (.str check.parameter) ∧
        Tree.field? settings "value" = some check.value
  /-- Wherever resolving compares a value with the one before, both have a kind. -/
  kinds : ∀ profile context merged, (l.compiler.mergeConfined context).outcome = .ok merged →
    ∀ front check rest,
      profileChecks merged (l.compiler.buildCheckMap merged context).1 profile =
        front ++ check :: rest →
      ∃ data, (resolve profile context (front.map Compiler.settingOf)).outcome = .ok data ∧
        ∀ previous, data.get? check.parameter = some previous →
          (∃ k, previous.kind? = .ok k) ∧ ∃ k, check.value.kind? = .ok k
  /-- No context is counted round an empty list of values. -/
  divisors : ∀ i < contextCount (collectConfines (.map (l.merged?.getD []))),
    ∀ e ∈ collectConfines (.map (l.merged?.getD [])), 0 < e.2.asList.length

variable {corpus : Corpus}

theorem compile_ends (h : CheckedDocuments corpus) (lead : Option String) (profile : Scalar)
    (context : Tree) :
    ((compile ⟨corpus, .ofPrefix lead⟩ profile context).andThen fun _ => .done ()).outcome =
      .ok () := by
  obtain ⟨data, hdata⟩ := compile_total h lead Schema.parameterCheckType profile context
  exact Logged.andThen_ok.mpr ⟨data, hdata, rfl⟩

theorem compileAll_total (h : CheckedDocuments corpus) (lead : Option String) (profile : Scalar) :
    (compileAll ⟨corpus, .ofPrefix lead⟩ profile).outcome = .ok () :=
  Logged.each_total fun context _ => compile_ends h lead profile context

theorem serve_total (h : CheckedDocuments corpus) (lead : Option String) (request : Request) :
    (serve ⟨corpus, .ofPrefix lead⟩ request).outcome = .ok () := by
  cases request with
  | compile profile context => exact compile_ends h lead profile context
  | validate => rfl

theorem profileMessages_eq (h : CheckedDocuments corpus) (lead : Option String)
    (profile : Scalar) :
    profileMessages ⟨corpus, .ofPrefix lead⟩ profile =
      (compileAll ⟨corpus, .ofPrefix lead⟩ profile).messages := by
  unfold profileMessages
  dsimp only
  rw [compileAll_total h lead profile]

/-- Every error of the compilations of a profile begins with the profile and a blank. -/
theorem error_of_compileAll {l : Lint} {profile : Scalar} {m : Message}
    (h : m ∈ (l.compileAll profile).messages) (he : m.level = .error) :
    (profile.text ++ " ").toList <+: m.text.toList := by
  obtain ⟨context, -, hm⟩ := Logged.mem_each h
  rcases Logged.mem_andThen hm with hcompile | ⟨data, -, hdone⟩
  · exact error_of_compile hcompile he
  · cases hdone

theorem not_failure_of_blank {profile text : String} (h : (profile ++ " ").toList <+: text.toList) :
    ¬ (profile ++ ": failed to compile Hiera data: ").toList <+: text.toList := by
  intro hfailure
  obtain ⟨rest, hrest⟩ := h
  simp only [String.toList_append, List.append_assoc] at hrest hfailure
  rw [← hrest, List.prefix_append_right_inj] at hfailure
  have hhead : ':' = ' ' := (List.cons_prefix_cons.mp hfailure).1
  exact absurd hhead (by decide)

theorem mergeConfined_eq {lead : Option String} {context : Tree} {merged : Mapping}
    (h : ((compiler ⟨corpus, .ofPrefix lead⟩).mergeConfined context).outcome = .ok merged) :
    merged = confinedView corpus (.ofPrefix lead) context :=
  (Except.ok.inj ((mergeConfined_ofPrefix corpus lead context).symm.trans h)).symm

/-- **A run over checked documents is settled.** -/
theorem settled_of_checked (h : CheckedDocuments corpus) (lead : Option String) :
    Settled ⟨corpus, .ofPrefix lead⟩ where
  checked := h
  served _ := Logged.each_total fun request _ => serve_total h lead request
  validated names hn := by
    unfold validate
    rw [hn]
    dsimp only
    rw [funext fun profile => profileMessages_eq h lead profile]
  compiled profile m hm he := by
    rw [profileMessages_eq h lead profile] at hm
    exact not_failure_of_blank (error_of_compileAll hm he)
  usable profile context merged hm check hc := by
    obtain rfl := mergeConfined_eq hm
    obtain ⟨name, t, -, hu⟩ := mem_pulledChecks hc
    obtain ⟨-, -, settings, hs, hp, hv⟩ := of?_eq_ok.mp hu
    exact ⟨settings, hs, hp, hv⟩
  kinds profile context merged hm front check rest hsplit := by
    obtain rfl := mergeConfined_eq hm
    have hpulled : pulledChecks corpus lead Schema.parameterCheckType profile context =
        front ++ check :: rest := hsplit
    have hfront : ∀ c ∈ front,
        c ∈ pulledChecks corpus lead Schema.parameterCheckType profile context :=
      fun c hc => hpulled ▸ List.mem_append_left _ hc
    have hcheck : check ∈ pulledChecks corpus lead Schema.parameterCheckType profile context :=
      hpulled ▸ List.mem_append_right _ List.mem_cons_self
    obtain ⟨data, hdata, hkept⟩ := resolve_pulledChecks h hfront
    refine ⟨data, hdata, fun previous hprevious => ⟨?_, ?_⟩⟩
    · obtain ⟨name, hin, -⟩ := Table.mem_of_get? hprevious
      exact (hkept _ hin).here.kind
    · exact (knownNode_pulledChecks h hcheck).here.kind
  divisors _ hi _ he := asList_pos_of_contextCount hi he

/-! ## Starting -/

/-- A configuration whose marker is a text or null, and which lists names of directories and of file
types. What it leaves out is as by default. -/
structure TextConfig (config : Mapping) : Prop where
  marker : ∀ t, Tree.field? config "knockout_prefix" = some t → t = .null ∨ ∃ text, t = .str text
  dirs : ∀ t, Tree.field? config "data_dirs" = some t →
    ∃ names : List String, t = .seq (names.map .str)
  types : ∀ t, Tree.field? config "file_types" = some t →
    ∃ names : List String, t = .seq (names.map .str)

theorem texts_getD {given : Option Tree}
    (h : ∀ t, given = some t → ∃ names : List String, t = .seq (names.map .str))
    (default : List String) :
    ∃ names : List String, given.getD (.seq (default.map .str)) = .seq (names.map .str) := by
  cases given with
  | none => exact ⟨default, rfl⟩
  | some t => exact h t rfl

theorem fileTypesOf_texts (names : List String) :
    ∃ types, fileTypesOf (names.map .str) = .ok types := by
  induction names with
  | nil => exact ⟨[], rfl⟩
  | cons name names ih =>
    obtain ⟨types, ht⟩ := ih
    exact ⟨_, by rw [List.map_cons, fileTypesOf, ht]; rfl⟩

theorem ofTree_marker {given : Option Tree}
    (h : ∀ t, given = some t → t = .null ∨ ∃ text, t = .str text) :
    ∃ lead, Knockout.ofTree (given.getD (.str Knockout.defaultText)) = .ofPrefix lead := by
  cases given with
  | none => exact ⟨some Knockout.defaultText, rfl⟩
  | some t =>
    rcases h t rfl with rfl | ⟨text, rfl⟩
    · exact ⟨none, rfl⟩
    · exact ⟨some text, rfl⟩

/-- A configuration of texts gives settings: names of directories, and a marker that can be
matched. -/
theorem ofConfig_total {config : Mapping} (h : TextConfig config) :
    ∃ settings lead, Settings.ofConfig config = .ok settings ∧
      settings.knockout = .ofPrefix lead ∧
      ∃ dirs : List String, settings.dataDirs = dirs.map .str := by
  obtain ⟨dirs, hdirs⟩ := texts_getD h.dirs Store.defaultDataDirs
  obtain ⟨names, hnames⟩ := texts_getD h.types Store.defaultFileTypes
  obtain ⟨types, htypes⟩ := fileTypesOf_texts names
  obtain ⟨lead, hlead⟩ := ofTree_marker h.marker
  refine ⟨⟨dirs.map .str, types, .ofPrefix lead⟩, lead, ?_, rfl, dirs, rfl⟩
  unfold Settings.ofConfig
  dsimp only
  rw [hdirs, hnames, hlead]
  simp only [members, bind, Except.bind, htypes]
  rfl

/-- The system refuses neither the paths of a run nor what is looked at in its data directories:
nothing there has a name of more than 255 bytes or a path of more than 4095. -/
def Opens (d : Disk) (paths : List String) (config : Mapping) : Prop :=
  ∀ settings dirs, Settings.ofConfig config = .ok settings → settings.dataDirs = dirs.map .str →
    ∀ path ∈ paths, Store.Opens d dirs settings.fileTypes path

/-- One profile with one check. -/
def baseText : String := "\n".intercalate [
  "profiles:",
  "  base:",
  "    checks:",
  "      c: true",
  "checks:",
  "  c:",
  "    type: puppet-class-parameter",
  "    settings:",
  "      parameter: a",
  "      value: 1"]

def baseConfig : Mapping := [(.str "knockout_prefix", .str "--"),
  (.str "data_dirs", .seq [.str "data"]), (.str "file_types", .seq [.str "yaml"])]

/-- A name of 300 bytes. -/
def longName : String := String.ofList (List.replicate 300 'a')

/-- A data directory with such a name. -/
def longConfig : Mapping := [(.str "data_dirs", .seq [.str longName])]

/-- A disk on which no data directory is to be found. -/
def plainDisk : Disk := Disk.oneFile "a.yaml" "1\n".toUTF8

/-- The path of the data directory. -/
def longPath : Path := (Path.ofText ".").join (Path.ofText longName)

theorem refuses_longPath : plainDisk.refuses longPath = true := by
  have hname : Path.ofText longName = ⟨"", [longName]⟩ :=
    Path.ofText_ofList (fun h => absurd (List.eq_of_mem_replicate h) (by decide))
      (by decide +kernel)
  have hlong : Directory.overlong [plainDisk.root] (plainDisk.full longPath) = true := by
    rw [longPath, hname]
    decide +kernel
  rw [Disk.refuses, hlong, Bool.or_true]

/-- A first data directory that the system refuses ends the run at once. -/
theorem start_of_refused {d : Disk} {path dir : String} {paths : List String} {dirs : List Tree}
    {config : Mapping} {settings : Settings} {entries : Directory}
    (hsettings : Settings.ofConfig config = .ok settings)
    (hdirs : settings.dataDirs = .str dir :: dirs) (hpath : d.refuses (Path.ofText path) = false)
    (hfind : d.find (Path.ofText path) = .ok (.dir entries))
    (hdir : d.refuses ((Path.ofText path).join (Path.ofText dir)) = true) :
    start d (path :: paths) config =
      .error (.load (.file .nameTooLong ((Path.ofText path).join (Path.ofText dir)).text)) := by
  have hcandidates : (Store.new settings.dataDirs settings.fileTypes).candidates d path =
      .error (.file .nameTooLong ((Path.ofText path).join (Path.ofText dir)).text) := by
    unfold Store.candidates Store.discover
    rw [hpath, hfind, Store.new, hdirs]
    simp [Store.discover.go, Store.bars, hdir]
  unfold start
  rw [hsettings]
  simp only [bind, Except.bind, Store.load, Store.loadPaths, hcandidates]
  rfl

end Lint

end Compliance
