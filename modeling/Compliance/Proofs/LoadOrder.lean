import Compliance.Proofs.Discovery
import Compliance.Proofs.Parsing

/-! # What a fresh store loads, and in which order

* `candidateFiles`: the files that a path stands for, in order. `obstacle?`: why it stands for none.
* `discover_eq`: those of a module are the data files below its data directories.
* `candidates_fresh`, `reached_fresh`: a fresh store reaches those of all paths in front of the
  first with an obstacle.
* `Disk.bare`: a disk without the contents of its files.
* `load_unread`: what is loaded depends on the tree and on the texts of the candidates only.
* `Escapes`, `parse_outcome`: a fault that is not reported, and that nothing else ends a parse.
* `load_of_clean`, `load_of_escape`: how a load ends without such a fault, and with one.
* `load_order`: the documents of a load, their order, and how a load can end.
-/

namespace Compliance

/-! ## Trees without contents -/

mutual

/-- The entry with no bytes in its files. -/
def Entry.bare : Entry → Entry
  | .file _ => .file .empty
  | .dir entries => .dir (bareEntries entries)

def bareEntries : List (String × Entry) → List (String × Entry)
  | [] => []
  | (name, e) :: entries => (name, e.bare) :: bareEntries entries

end

/-- The disk with no bytes in its files. -/
def Disk.bare (d : Disk) : Disk := ⟨bareEntries d.root, d.place⟩

namespace Directory

theorem get?_bare (entries : Directory) (name : String) :
    Table.get? (bareEntries entries) name = (Table.get? entries name).map Entry.bare := by
  induction entries with
  | nil => rfl
  | cons e entries ih =>
    obtain ⟨key, value⟩ := e
    rw [bareEntries, Table.get?_cons, Table.get?_cons, ih]
    split <;> rfl

mutual

theorem files_bare : ∀ (e : Entry) (here : List String),
    Entry.files here e.bare = Entry.files here e
  | .file _, _ => rfl
  | .dir entries, here => by
    rw [Entry.bare, Entry.files, Entry.files, entryFiles_bare entries here]

theorem entryFiles_bare : ∀ (entries : List (String × Entry)) (here : List String),
    entryFiles here (bareEntries entries) = entryFiles here entries
  | [], _ => rfl
  | (name, e) :: entries, here => by
    rw [bareEntries, entryFiles, entryFiles, files_bare e, entryFiles_bare entries]

end

theorem follow_bare (names : List String) (way : List Directory) :
    follow (way.map bareEntries) names = (follow way names).map Entry.bare := by
  have hhead : ∀ way : List Directory,
      (way.map bareEntries).headD [] = bareEntries (way.headD []) := fun way => by
    cases way <;> rfl
  induction names generalizing way with
  | nil =>
    rw [follow, follow, hhead]
    rfl
  | cons name names ih =>
    rw [follow, follow]
    split
    · -- going up drops the innermost directory, but never the root
      rw [← ih]
      cases way with
      | nil => rfl
      | cons inner way => cases way <;> rfl
    · rw [hhead, get?_bare]
      cases (way.headD []).get? name with
      | none => rfl
      | some e =>
        cases e with
        | file bytes =>
          simp only [Option.map_some, Entry.bare]
          split <;> rfl
        | dir inner => exact ih (inner :: way)

theorem overlong_bare (names : List String) (way : List Directory) :
    overlong (way.map bareEntries) names = overlong way names := by
  have hhead : ∀ way : List Directory,
      (way.map bareEntries).headD [] = bareEntries (way.headD []) := fun way => by
    cases way <;> rfl
  induction names generalizing way with
  | nil => rfl
  | cons name names ih =>
    rw [overlong, overlong, hhead, get?_bare]
    split
    · refine Eq.trans ?_ (ih (if way.tail.isEmpty then way else way.tail))
      cases way with
      | nil => rfl
      | cons inner way => cases way <;> rfl
    · cases (way.headD []).get? name with
      | none => rfl
      | some e =>
        cases e with
        | file bytes => rfl
        | dir inner => exact congrArg (tooLong name || ·) (ih (inner :: way))

mutual

theorem entryVisited_bare (test : String → Bool) : ∀ (e : Entry) (here : List String)
    (passes : Bool), Entry.visited test here passes e.bare = Entry.visited test here passes e
  | .file _, _, _ => rfl
  | .dir entries, here, _ => by
    rw [Entry.bare, Entry.visited, Entry.visited, visited_bare test entries here]

theorem visited_bare (test : String → Bool) : ∀ (entries : List (String × Entry))
    (here : List String), visited test here (bareEntries entries) = visited test here entries
  | [], _ => rfl
  | (name, e) :: entries, here => by
    rw [bareEntries, visited, visited, entryVisited_bare test e, visited_bare test entries]

end

end Directory

theorem Disk.find_bare (d : Disk) (path : Path) : d.bare.find path = (d.find path).map Entry.bare :=
  Directory.follow_bare _ [d.root]

theorem Disk.refuses_bare (d : Disk) (path : Path) : d.bare.refuses path = d.refuses path := by
  rw [Disk.refuses, Disk.refuses]
  exact congrArg (_ || ·) (Directory.overlong_bare _ [d.root])

namespace Store

variable {s : Store} {d d' : Disk}

/-! ## Candidates -/

/-- The candidates of a path: itself as it is spelled, if it is a file; if it is a directory, the
data files below each of the data directories, by type. -/
def candidateFiles (d : Disk) (dirs : List String) (types : List FileType) (path : String) :
    List String :=
  match d.find (Path.ofText path) with
  | .ok (.file _) => [path]
  | .ok (.dir _) => dirs.flatMap fun dir =>
      types.flatMap (filesIn d ((Path.ofText path).join (Path.ofText dir)))
  | .error _ => []

/-- Why a path stands for no files: the system refuses it, it is missing, or the system refuses to
look through one of the data directories below it. -/
def obstacle? (d : Disk) (dirs : List String) (types : List FileType) (path : String) :
    Option LoadFault :=
  if d.refuses (Path.ofText path) then some (.file .nameTooLong (Path.ofText path).text)
  else
    match d.find (Path.ofText path) with
    | .ok (.file _) => none
    | .ok (.dir _) => barred? d dirs types (Path.ofText path)
    | .error _ => some (.missing path)

/-- The first obstacle is a missing path only if that is the first path that is missing. -/
theorem find?_of_obstacle? {dirs : List String} {types : List FileType} {paths : List String}
    {path : String} (h : paths.findSome? (obstacle? d dirs types) = some (.missing path)) :
    paths.find? (fun path => !d.contains (Path.ofText path)) = some path := by
  induction paths with
  | nil => cases h
  | cons first paths ih =>
    rw [List.findSome?_cons] at h
    rw [List.find?_cons]
    unfold obstacle? barred? at h
    unfold Disk.contains
    cases hrefused : d.refuses (Path.ofText first) with
    | true =>
      rw [hrefused] at h
      cases h
    | false =>
      rw [hrefused, if_neg Bool.false_ne_true] at h
      cases hfind : d.find (Path.ofText first) with
      | error fault =>
        rw [hfind] at h
        exact congrArg some (LoadFault.missing.inj (Option.some.inj h))
      | ok e =>
        rw [hfind] at h
        cases e with
        | file bytes => exact ih h
        | dir entries =>
          cases hdir : dirs.find? fun dir =>
              bars d types ((Path.ofText first).join (Path.ofText dir)) with
          | none =>
            simp only [hdir, Option.map_none] at h
            exact ih h
          | some dir =>
            simp only [hdir, Option.map_some] at h
            cases h

theorem obstacle?_of_opens {dirs : List String} {types : List FileType} {path : String}
    (h : Opens d dirs types path) : obstacle? d dirs types path =
      if d.contains (Path.ofText path) then none else some (.missing path) := by
  unfold obstacle? Disk.contains
  rw [h.reached, if_neg Bool.false_ne_true, barred?_of_opens h]
  cases d.find (Path.ofText path) with
  | error fault => rfl
  | ok e => cases e <;> rfl

/-- Where the system refuses nothing, the first obstacle is the first missing path. -/
theorem obstacle_of_opens {dirs : List String} {types : List FileType} {paths : List String}
    (h : ∀ path ∈ paths, Opens d dirs types path) : paths.findSome? (obstacle? d dirs types) =
      (paths.find? fun path => !d.contains (Path.ofText path)).map LoadFault.missing := by
  induction paths with
  | nil => rfl
  | cons path paths ih =>
    obtain ⟨hpath, hpaths⟩ := List.forall_mem_cons.mp h
    rw [List.findSome?_cons, List.find?_cons, obstacle?_of_opens hpath, ih hpaths]
    cases d.contains (Path.ofText path) <;> rfl

/-- **Discovery lists the data files** below each of the data directories, by type. -/
theorem discover_eq {dirs : List String} (h : s.dataDirs = dirs.map Tree.str) (d : Disk)
    (module : Path) : s.discover d module = match barred? d dirs s.fileTypes module with
      | some fault => .error fault
      | none => .ok (dirs.flatMap fun dir =>
          s.fileTypes.flatMap (filesIn d (module.join (Path.ofText dir)))) := by
  unfold discover
  rw [h, discover_go]
  rfl

theorem candidates_fresh (d : Disk) (dirs : List String) (types : List FileType) (path : String) :
    (new (dirs.map Tree.str) types).candidates d path = match obstacle? d dirs types path with
      | some fault => .error fault
      | none => .ok (candidateFiles d dirs types path) := by
  unfold candidates candidateFiles obstacle?
  cases d.refuses (Path.ofText path) with
  | true => rfl
  | false =>
    cases d.find (Path.ofText path) with
    | error fault => rfl
    | ok e =>
      cases e with
      | file bytes => rfl
      | dir entries => exact discover_eq rfl d (Path.ofText path)

/-- **A fresh store reaches the candidates of all paths in front of the first with an obstacle.** -/
theorem reached_fresh (d : Disk) (dirs : List String) (types : List FileType)
    (paths : List String) : (new (dirs.map Tree.str) types).reached d paths =
      ((paths.takeWhile fun path => (obstacle? d dirs types path).isNone).flatMap
          (candidateFiles d dirs types),
        paths.findSome? (obstacle? d dirs types)) := by
  induction paths with
  | nil => rfl
  | cons path paths ih =>
    rw [reached, candidates_fresh]
    cases hpath : obstacle? d dirs types path with
    | none => simp [hpath, ih]
    | some fault => simp [hpath]

/-! ## Files that are not read -/

theorem filesIn_bare (d : Disk) (base : Path) (type : FileType) :
    filesIn d.bare base type = filesIn d base type := by
  unfold filesIn
  rw [Disk.find_bare]
  cases d.find base with
  | error fault => rfl
  | ok e =>
    cases e with
    | file bytes => rfl
    | dir entries =>
      simp only [Except.map, Entry.bare, Directory.filesBelow, Directory.entryFiles_bare]

theorem bars_bare (d : Disk) (types : List FileType) (base : Path) :
    bars d.bare types base = bars d types base := by
  unfold bars
  rw [Disk.find_bare, Disk.refuses_bare]
  cases d.find base with
  | error fault => rfl
  | ok e =>
    cases e with
    | file bytes => rfl
    | dir entries => simp only [Except.map, Entry.bare, Directory.visited_bare]

theorem candidates_bare (s : Store) (d : Disk) (path : String) :
    s.candidates d.bare path = s.candidates d path := by
  have hunder : ∀ module dir, s.filesUnder d.bare module dir = s.filesUnder d module dir := by
    intro module dir
    rw [filesUnder, filesUnder, funext (filesIn_bare d _)]
  unfold candidates discover
  rw [Disk.find_bare, Disk.refuses_bare]
  cases d.find (Path.ofText path) with
  | error fault => rfl
  | ok e =>
    cases e with
    | file bytes => rfl
    | dir entries => rw [Except.map, Entry.bare, discover_congr (bars_bare d _) (hunder _)]

theorem reached_of_bare (hbare : d.bare = d'.bare) (s : Store) (paths : List String) :
    s.reached d paths = s.reached d' paths := by
  induction paths with
  | nil => rfl
  | cons path paths ih =>
    unfold reached
    rw [← candidates_bare s d, ← candidates_bare s d', hbare, ih]

theorem parse_of_readText {file : String}
    (h : (s.fileType? file).isSome →
      d.readText (Path.ofText file) = d'.readText (Path.ofText file)) :
    s.parse d file = s.parse d' file := by
  unfold parse judge
  cases htype : s.fileType? file with
  | none => rfl
  | some type => rw [h (htype ▸ rfl)]

theorem loadFiles_of_readText : ∀ {files : List String} {s : Store} {documents : Corpus},
    (∀ file ∈ files, (s.fileType? file).isSome →
      d.readText (Path.ofText file) = d'.readText (Path.ofText file)) →
    loadFiles d s documents files = loadFiles d' s documents files
  | [], _, _, _ => rfl
  | file :: files, s, documents, h => by
    rw [loadFiles_cons, loadFiles_cons, parse_of_readText (h file List.mem_cons_self)]
    refine Step.andThen_congr fun value => loadFiles_of_readText fun other hm htype => ?_
    rw [fileType?_congr (parse_settings s d' file).2] at htype
    exact h other (List.mem_cons_of_mem _ hm) htype

/-- **No file is read but the candidates**: on a disk with the same tree, where those have the same
texts, everything about a load is the same. -/
theorem load_unread {paths : List String} (hbare : d.bare = d'.bare)
    (h : ∀ file ∈ (s.reached d paths).1, (s.fileType? file).isSome →
      d.readText (Path.ofText file) = d'.readText (Path.ofText file)) :
    s.load d paths = s.load d' paths := by
  unfold load
  rw [loadPaths_eq, loadPaths_eq, ← reached_of_bare hbare, loadFiles_of_readText h]

/-! ## Faults that end a load -/

/-- The fault of a file ends the run: it is not among those that are reported. -/
def Escapes (s : Store) (d : Disk) (file : String) (fault : Yaml.Fault) : Prop :=
  ∃ type, s.fileType? file = some type ∧ judge d type file = .error (.yaml fault) ∧
    fault.endsRun = true

theorem escapes_iff {file : String} {type : FileType} {fault : Yaml.Fault}
    (h : s.fileType? file = some type) : s.Escapes d file fault ↔
      judge d type file = .error (.yaml fault) ∧ fault.endsRun = true := by
  unfold Escapes
  rw [h]
  simp

/-- A parse that judges its file gives a result unless the fault of the file ends the run. -/
theorem parse_outcome {file : String} (h : s.remembered.get? file = none) (d : Disk) :
    (∃ value, (s.parse d file).outcome = .ok value ∧ ∀ fault, ¬ s.Escapes d file fault) ∨
      ∃ fault, (s.parse d file).outcome = .error (.document fault) ∧ s.Escapes d file fault := by
  have hp := parsed s d file
  generalize s.parse d file = step at hp
  cases hp with
  | remembered hv => cases h.symm.trans hv
  | unknown _ hnone =>
    refine .inl ⟨_, rfl, ?_⟩
    rintro fault ⟨type, htype, -⟩
    cases hnone.symm.trans htype
  | empty _ htype hj | document _ htype hj _ =>
    refine .inl ⟨_, rfl, fun fault hescapes => ?_⟩
    rw [escapes_iff htype, hj] at hescapes
    cases hescapes.1
  | reported _ htype hj hends =>
    refine .inl ⟨_, rfl, fun fault hescapes => ?_⟩
    rw [escapes_iff htype, hj] at hescapes
    obtain rfl := Except.error.inj hescapes.1
    cases hends.symm.trans hescapes.2
  | ended _ htype hj hends => exact .inr ⟨_, rfl, (escapes_iff htype).mpr ⟨hj, hends⟩⟩

theorem parse_escapes {file : String} {fault : Yaml.Fault} (h : s.remembered.get? file = none)
    (hescapes : s.Escapes d file fault) :
    (s.parse d file).outcome = .error (.document fault) := by
  obtain ⟨_, -, hnone⟩ | ⟨fault', hout, type, htype, hj, -⟩ := parse_outcome h d
  · exact absurd hescapes (hnone fault)
  · have hfault := ((escapes_iff htype).mp hescapes).1
    obtain rfl := DocumentFault.yaml.inj (Except.error.inj (hj.symm.trans hfault))
    exact hout

/-! ## Loading -/

section
variable {paths : List String} (hs : s.remembered = [])
include hs

theorem gives_of_clean {file : String} (h : ∀ fault, ¬ s.Escapes d file fault) :
    ∃ value, (s.parse d file).outcome = .ok value := by
  have hforgotten : s.remembered.get? file = none := hs ▸ rfl
  obtain ⟨value, hout, -⟩ | ⟨fault, -, hescapes⟩ := parse_outcome hforgotten d
  · exact ⟨value, hout⟩
  · exact absurd hescapes (h fault)

theorem gather_ne_missing (path : String) (files : List String) (documents : Corpus) :
    s.gather d documents files ≠ .error (.missing path) := by
  induction files generalizing documents with
  | nil =>
    intro h
    cases h
  | cons file files ih =>
    have hforgotten : s.remembered.get? file = none := hs ▸ rfl
    rw [gather]
    obtain ⟨value, hout, -⟩ | ⟨fault, hout, -⟩ := parse_outcome hforgotten d
    · rw [hout]
      exact ih _
    · rw [hout]
      intro h
      cases h

theorem reached_of_missing {path : String}
    (h : (s.load d paths).outcome = .error (.missing path)) :
    (s.reached d paths).2 = some (.missing path) := by
  have hne := gather_ne_missing (d := d) hs path (s.reached d paths).1 []
  rw [load_outcome] at h
  cases hgather : s.gather d [] (s.reached d paths).1 with
  | error fault =>
    rw [hgather] at h hne
    exact absurd h hne
  | ok corpus =>
    rw [hgather] at h
    cases hfault : (s.reached d paths).2 with
    | none =>
      rw [hfault] at h
      cases h
    | some fault =>
      rw [hfault] at h
      exact congrArg some (Except.error.inj h)

theorem load_of_clean
    (h : ∀ file ∈ (s.reached d paths).1, ∀ fault, ¬ s.Escapes d file fault) :
    ∃ corpus, s.gather d [] (s.reached d paths).1 = .ok corpus ∧
      (s.load d paths).outcome = match (s.reached d paths).2 with
        | none => .ok corpus
        | some fault => .error fault := by
  obtain ⟨corpus, hgather⟩ : ∃ corpus, s.gather d [] (s.reached d paths).1 = .ok corpus :=
    gather_total fun file hm => gives_of_clean hs (h file hm)
  refine ⟨corpus, hgather, ?_⟩
  rw [load_outcome, hgather]
  rfl

theorem load_of_escape {before after : List String} {file : String} {fault : Yaml.Fault}
    (hfiles : (s.reached d paths).1 = before ++ file :: after)
    (hbefore : ∀ other ∈ before, ∀ fault, ¬ s.Escapes d other fault)
    (h : s.Escapes d file fault) : (s.load d paths).outcome = .error (.document fault) := by
  have hfault : s.gather d [] (before ++ file :: after) = .error (.document fault) :=
    gather_fault (fun other hm => gives_of_clean hs (hbefore other hm))
      (parse_escapes (hs ▸ rfl) h)
  rw [load_outcome, hfiles, hfault]
  rfl

end

/-- **The documents of a load on a fresh store.** Data files are listed by directory and type, each
listing complete and in order. A load ends with a missing path only if that is the first one; the
keys of the result are the candidates with a document, each where it comes first, and no file but
the candidates is read. The first path with an obstacle ends the load: a missing path, or one that
is too long for the system or leads it to such. The first candidate with a fault that is not
reported ends the load before an obstacle can. -/
theorem load_order (d : Disk) (dirs typeNames paths : List String) :
    let types := typeNames.filterMap FileType.ofName?
    let s := new (dirs.map Tree.str) types
    let missing := paths.find? fun path => !d.contains (Path.ofText path)
    let obstacle := paths.findSome? (obstacle? d dirs types)
    let files := (paths.takeWhile fun path => (obstacle? d dirs types path).isNone).flatMap
      (candidateFiles d dirs types)
    (∀ base type entries, d.find base = .ok (.dir entries) → ∃ listing,
      DataFiles entries type listing ∧
      filesIn d base type = listing.map fun names => (base.join ⟨"", names⟩).text) ∧
    (∀ base type, d.containsDir base = false → filesIn d base type = []) ∧
    (∀ path, (s.load d paths).outcome = .error (.missing path) → missing = some path) ∧
    (∀ path, Opens d dirs types path → obstacle? d dirs types path =
      if d.contains (Path.ofText path) then none else some (.missing path)) ∧
    ((∀ path ∈ paths, Opens d dirs types path) → obstacle = missing.map LoadFault.missing) ∧
    ((∀ file ∈ files, ∀ fault, ¬ s.Escapes d file fault) →
      (∀ fault, obstacle = some fault → (s.load d paths).outcome = .error fault) ∧
      (obstacle = none → ∃ corpus, (s.load d paths).outcome = .ok corpus ∧
        corpus.keys = (files.filter fun file => (s.document? d file).isSome).eraseDups ∧
        ∀ file, corpus.get? file = if file ∈ files then s.document? d file else none)) ∧
    (∀ before file after fault, files = before ++ file :: after →
      (∀ other ∈ before, ∀ fault, ¬ s.Escapes d other fault) → s.Escapes d file fault →
      (s.load d paths).outcome = .error (.document fault)) ∧
    ∀ d', d.bare = d'.bare →
      (∀ file ∈ files, (s.fileType? file).isSome →
        d.readText (Path.ofText file) = d'.readText (Path.ofText file)) →
      s.load d paths = s.load d' paths := by
  intro types s missing obstacle files
  have hs : s.remembered = [] := rfl
  obtain ⟨hfiles, hobstacle⟩ : (s.reached d paths).1 = files ∧ (s.reached d paths).2 = obstacle :=
    Prod.mk.inj (reached_fresh d dirs types paths)
  refine ⟨fun base type entries h => filesIn_dir h type,
    fun base type h => filesIn_of_not_dir h type, fun path h => ?_,
    fun path h => obstacle?_of_opens h, fun hopens => obstacle_of_opens hopens, fun hclean => ?_,
    fun before file after fault hsplit hbefore h =>
      load_of_escape hs (hfiles.trans hsplit) hbefore h,
    fun d' hbare hread => load_unread hbare (hfiles ▸ hread)⟩
  · exact find?_of_obstacle? (hobstacle.symm.trans (reached_of_missing hs h))
  · obtain ⟨corpus, hgather, hout⟩ := load_of_clean hs (hfiles ▸ hclean)
    rw [hfiles] at hgather
    rw [hobstacle] at hout
    refine ⟨fun fault h => ?_, fun h => ⟨corpus, ?_, ?_, fun file => ?_⟩⟩
    · rw [hout, h]
    · rw [hout, h]
    · rw [keys_gather hgather]
      simp [Table.keys, Table.contains, Table.get?]
    · rw [get?_gather hgather]
      simp [Table.get?]

end Store

end Compliance
