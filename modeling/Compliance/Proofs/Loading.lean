import Compliance.Proofs.CheckedTrees
import Compliance.Store

/-! # What the store loads

A store that looks in directories with names, on a disk whose faults it reports and which it may
look through, loads every path that is there; and what it loads has passed the check.

* `Disk.FaultsReported`: no YAML file of the disk makes its reader stop the run.
* `Store.judge_cases`: the ways in which a file is judged.
* `Store.Opens`: the system refuses neither a path nor the data directories below it.
* `Store.Ready`: the directories are names, and what is remembered is checked.
* `Store.parse_ready`: one file keeps the store ready and gives a checked document.
* `Store.load_ready`: so do all files of all paths.
-/

namespace Compliance

/-- The texts of the YAML files of the disk are read, or have faults that the store reports. -/
def Disk.FaultsReported (d : Disk) : Prop :=
  ∀ file text fault, FileType.ofName? (Path.ofText file).extension = some .yaml →
    d.readText (Path.ofText file) = .ok text → Yaml.read text = .error fault →
    fault.endsRun = false

/-! ## Paths of one name -/

namespace Path

theorem pieces_of_notMem : ∀ {cs : List Char}, '/' ∉ cs → pieces cs = [cs]
  | [], _ => rfl
  | c :: cs, h => by
    obtain ⟨hc, hcs⟩ := not_or.mp (mt List.mem_cons.mpr h)
    rw [pieces, pieces_of_notMem hcs]
    exact if_neg (Ne.symm hc)

theorem rootOf_of_notMem {cs : List Char} (h : '/' ∉ cs) : rootOf cs = "" := by
  have hnone : cs.takeWhile (· == '/') = [] := by
    cases cs with
    | nil => rfl
    | cons c cs =>
      refine List.takeWhile_cons_of_neg fun hc => h ?_
      rw [eq_of_beq hc]
      exact List.mem_cons_self
  rw [rootOf, hnone]
  rfl

theorem ofText_ofList {cs : List Char} (hslash : '/' ∉ cs)
    (hname : (!(String.ofList cs).isEmpty && String.ofList cs != ".") = true) :
    ofText (String.ofList cs) = ⟨"", [String.ofList cs]⟩ := by
  unfold ofText
  rw [String.toList_ofList, pieces_of_notMem hslash, rootOf_of_notMem hslash]
  exact congrArg (Path.mk _) (List.filter_cons_of_pos hname)

end Path

/-! ## A disk with one file -/

/-- A disk with one file, which is at its root. -/
def Disk.oneFile (name : String) (bytes : ByteArray) : Disk := ⟨[(name, .file bytes)], []⟩

theorem Directory.follow_oneFile {name : String} {bytes found : ByteArray} (names : List String)
    (h : Directory.follow [[(name, .file bytes)]] names = .ok (.file found)) : found = bytes := by
  induction names with
  | nil => cases h
  | cons first names ih =>
    rw [Directory.follow] at h
    split at h
    · exact ih h
    · simp only [List.headD_cons, Table.get?_cons, Table.get?] at h
      split at h
      · cases h
      · rename_i hinner
        split at hinner <;> cases hinner
      · rename_i other hother
        split at hother
        · obtain rfl := Entry.file.inj (Option.some.inj hother)
          split at h
          · exact (Entry.file.inj (Except.ok.inj h)).symm
          · cases h
        · cases hother

theorem Disk.readText_oneFile {name : String} {bytes : ByteArray} {path : Path} {text : List Char}
    (h : (Disk.oneFile name bytes).readText path = .ok text) :
    (Utf8.decode bytes.toList).toOption.map Text.unifyLines = some text := by
  unfold Disk.readText Disk.readBytes Disk.find Disk.oneFile at h
  split at h
  · cases h
  · rename_i found hfound
    split at hfound
    · cases hfound
    split at hfound
    · rename_i bytes' hfollow
      obtain rfl := Except.ok.inj hfound
      rw [Directory.follow_oneFile _ hfollow] at h
      split at h
      · cases h
      · rename_i cs hcs
        rw [hcs, ← Except.ok.inj h]
        rfl
    · cases hfound
    · cases hfound

theorem Disk.faultsReported_oneFile {name : String} {bytes : ByteArray}
    (h : (((Utf8.decode bytes.toList).toOption.map Text.unifyLines).bind
      fun text => (Yaml.read text).toOption).isSome = true) :
    (Disk.oneFile name bytes).FaultsReported := fun file text fault _ ht hread => by
  rw [Disk.readText_oneFile ht, Option.bind_some, hread] at h
  cases h

/-! ## Documents -/

/-- The documents of a table have passed the check. -/
def CheckedDocuments (t : Table String Tree) : Prop := ∀ e ∈ t, e.2.check = .ok ()

theorem CheckedDocuments.insert {t : Table String Tree} {file : String} {value : Tree}
    (h : CheckedDocuments t) (hv : value.check = .ok ()) :
    CheckedDocuments (Table.insert t file value) := fun e he => by
  rcases Table.mem_insert he with hold | ⟨hnew, -⟩
  · exact h e hold
  · exact hnew ▸ hv

theorem CheckedDocuments.add {t : Table String Tree} (h : CheckedDocuments t) (file : String)
    (value : Tree) : value.check = .ok () →
    CheckedDocuments (match value with | .null => t | value => t.insert file value) := by
  intro hv
  split
  · exact h
  · exact h.insert hv

namespace Store

theorem judge_of_read {d : Disk} {file : String} {text : List Char}
    (h : d.readText (Path.ofText file) = .ok text) (type : FileType) :
    judge d type file = do
      let value ← valueOf type text
      value.check.mapError .kind
      return value := by
  unfold judge
  rw [h]
  rfl

/-- How a file is judged: it cannot be read, its text is no value, its value does not pass the
check, or the value is its document. -/
theorem judge_cases (d : Disk) (type : FileType) (file : String) :
    (∃ fault, judge d type file = .error (.read fault)) ∨
    ∃ text, d.readText (Path.ofText file) = .ok text ∧
      ((∃ fault, valueOf type text = .error fault ∧ judge d type file = .error fault) ∨
      ∃ value, valueOf type text = .ok value ∧
        ((∃ fault, judge d type file = .error (.kind fault)) ∨
        value.check = .ok () ∧ judge d type file = .ok value)) := by
  cases hr : d.readText (Path.ofText file) with
  | error fault =>
    refine .inl ⟨fault, ?_⟩
    unfold judge
    rw [hr]
    rfl
  | ok text =>
    refine .inr ⟨text, rfl, ?_⟩
    cases hv : valueOf type text with
    | error fault =>
      refine .inl ⟨fault, rfl, ?_⟩
      rw [judge_of_read hr, hv]
      rfl
    | ok value =>
      have hjudge : judge d type file =
          (value.check.mapError .kind >>= fun _ => pure value) := by
        rw [judge_of_read hr, hv]
        rfl
      refine .inr ⟨value, rfl, ?_⟩
      rw [hjudge]
      cases value.check with
      | error fault => exact .inl ⟨fault, rfl⟩
      | ok u => exact .inr ⟨rfl, rfl⟩

theorem check_of_judge {d : Disk} {type : FileType} {file : String} {value : Tree}
    (h : judge d type file = .ok value) : value.check = .ok () := by
  rcases judge_cases d type file with ⟨_, hj⟩ | ⟨_, -, ⟨_, -, hj⟩ | ⟨_, -, ⟨_, hj⟩ | ⟨hc, hj⟩⟩⟩
  · cases hj.symm.trans h
  · cases hj.symm.trans h
  · cases hj.symm.trans h
  · exact Except.ok.inj (hj.symm.trans h) ▸ hc

theorem read_of_judge {d : Disk} {type : FileType} {file : String} {fault : Yaml.Fault}
    (h : judge d type file = .error (.yaml fault)) :
    type = .yaml ∧ ∃ text, d.readText (Path.ofText file) = .ok text ∧
      Yaml.read text = .error fault := by
  rcases judge_cases d type file with ⟨_, hj⟩ | ⟨text, ht, ⟨_, hv, hj⟩ | ⟨_, -, ⟨_, hj⟩ | ⟨-, hj⟩⟩⟩
  · cases hj.symm.trans h
  · obtain rfl := Except.error.inj (hj.symm.trans h)
    cases type with
    | yaml =>
      change (Yaml.read text).mapError DocumentFault.yaml = .error (DocumentFault.yaml fault) at hv
      cases hread : Yaml.read text with
      | ok value =>
        rw [hread] at hv
        cases hv
      | error e =>
        rw [hread] at hv
        obtain rfl := DocumentFault.yaml.inj (Except.error.inj hv)
        exact ⟨rfl, text, ht, hread⟩
    | json =>
      change (Json.read text).mapError (DocumentFault.json · text) =
        .error (DocumentFault.yaml fault) at hv
      cases hread : Json.read text with
      | ok value =>
        rw [hread] at hv
        cases hv
      | error e =>
        rw [hread] at hv
        cases hv
  · cases hj.symm.trans h
  · cases hj.symm.trans h

/-- The system refuses neither a path nor what is looked at in the data directories below it. -/
structure Opens (d : Disk) (dirs : List String) (types : List FileType) (path : String) : Prop where
  reached : d.refuses (Path.ofText path) = false
  listed : ∀ dir ∈ dirs, bars d types ((Path.ofText path).join (Path.ofText dir)) = false

/-- The store can go on: its directories are names, it remembers checked documents only, and the
system does not refuse the paths. -/
structure Ready (s : Store) (d : Disk) (paths : List String) : Prop where
  named : ∃ dirs : List String, s.dataDirs = dirs.map .str ∧
    ∀ path ∈ paths, Opens d dirs s.fileTypes path
  checked : CheckedDocuments s.remembered

theorem Ready.tail {s : Store} {d : Disk} {path : String} {paths : List String}
    (h : s.Ready d (path :: paths)) : s.Ready d paths := by
  obtain ⟨⟨dirs, hdirs, hopens⟩, hchecked⟩ := h
  exact ⟨⟨dirs, hdirs, fun path hin => hopens path (List.mem_cons_of_mem _ hin)⟩, hchecked⟩

/-- **One file**: the store stays ready, and gives a checked document or null. -/
theorem parse_ready {s : Store} {d : Disk} {paths : List String} (hd : d.FaultsReported)
    (hs : s.Ready d paths) (file : String) :
    ∃ value, (s.parse d file).outcome = .ok value ∧ value.check = .ok () ∧
      (s.parse d file).store.Ready d paths := by
  unfold parse
  split
  · rename_i value hv
    obtain ⟨name, hm, -⟩ := Table.mem_of_get? hv
    exact ⟨value, rfl, hs.checked _ hm, hs⟩
  split
  · exact ⟨.null, rfl, rfl, hs⟩
  rename_i type htype
  split
  · exact ⟨.null, rfl, rfl, hs⟩
  · rename_i value _ hv
    exact ⟨value, rfl, check_of_judge hv, hs.named, hs.checked.insert (check_of_judge hv)⟩
  · rename_i fault hf
    obtain ⟨rfl, text, ht, hread⟩ := read_of_judge hf
    have hgoes : fault.endsRun = false :=
      hd file text fault (Option.filter_eq_some_iff.mp htype).1 ht hread
    simp only [hgoes, Bool.false_eq_true, if_false]
    exact ⟨.null, rfl, rfl, hs⟩
  · exact ⟨.null, rfl, rfl, hs⟩

/-! ## Discovery -/

/-- The first of some data directories that is barred ends discovery. -/
def barred? (d : Disk) (dirs : List String) (types : List FileType) (module : Path) :
    Option LoadFault :=
  (dirs.find? fun dir => bars d types (module.join (Path.ofText dir))).map fun dir =>
    .file .nameTooLong (module.join (Path.ofText dir)).text

/-- **Data directories with names** are all looked through, unless one of them is barred. -/
theorem discover_go (s : Store) (d : Disk) (module : Path) (dirs : List String) :
    discover.go s d module (dirs.map .str) = match barred? d dirs s.fileTypes module with
      | some fault => .error fault
      | none => .ok (dirs.flatMap fun dir => s.filesUnder d module (Path.ofText dir)) := by
  induction dirs with
  | nil => rfl
  | cons dir dirs ih =>
    rw [List.map_cons, Tree.str, discover.go, ih]
    unfold barred?
    rw [List.find?_cons]
    cases hdir : bars d s.fileTypes (module.join (Path.ofText dir)) with
    | true => rfl
    | false =>
      cases dirs.find? fun dir => bars d s.fileTypes (module.join (Path.ofText dir)) with
      | none => rfl
      | some other => rfl

theorem barred?_of_opens {d : Disk} {dirs : List String} {types : List FileType} {path : String}
    (h : Opens d dirs types path) : barred? d dirs types (Path.ofText path) = none := by
  unfold barred?
  rw [Option.map_eq_none_iff, List.find?_eq_none]
  exact fun dir hin => Bool.eq_false_iff.mp (h.listed dir hin)

theorem candidates_total {s : Store} {d : Disk} {path : String} {paths : List String}
    (hs : s.Ready d (path :: paths)) (h : d.contains (Path.ofText path) = true) :
    ∃ files, s.candidates d path = .ok files := by
  obtain ⟨dirs, hnames, hopens⟩ := hs.named
  have hopen : Opens d dirs s.fileTypes path := hopens path List.mem_cons_self
  unfold candidates
  rw [hopen.reached, if_neg Bool.false_ne_true]
  split
  · unfold discover
    rw [hnames, discover_go, barred?_of_opens hopen]
    exact ⟨_, rfl⟩
  · exact ⟨[path], rfl⟩
  · rename_i fault hf
    rw [Disk.contains, hf] at h
    cases h

/-! ## Loading -/

theorem loadFiles_ready {d : Disk} (hd : d.FaultsReported) : ∀ (files : List String) {s : Store}
    {done : Corpus} {paths : List String}, s.Ready d paths → CheckedDocuments done →
    ∃ corpus, (loadFiles d s done files).outcome = .ok corpus ∧ CheckedDocuments corpus ∧
      (loadFiles d s done files).store.Ready d paths
  | [], _, done, _, hs, hdone => ⟨done, rfl, hdone, hs⟩
  | file :: files, s, done, _, hs, hdone => by
    obtain ⟨value, hv, hchecked, hnext⟩ := parse_ready hd hs file
    obtain ⟨corpus, hc, hall, hend⟩ :=
      loadFiles_ready hd files hnext (hdone.add file value hchecked)
    rw [loadFiles, hv]
    exact ⟨corpus, hc, hall, hend⟩

theorem loadPaths_ready {d : Disk} (hd : d.FaultsReported) {paths : List String} {s : Store}
    {done : Corpus} (hp : ∀ path ∈ paths, d.contains (Path.ofText path) = true)
    (hs : s.Ready d paths) (hdone : CheckedDocuments done) :
    ∃ corpus, (loadPaths d s done paths).outcome = .ok corpus ∧ CheckedDocuments corpus := by
  induction paths generalizing s done with
  | nil => exact ⟨done, rfl, hdone⟩
  | cons path paths ih =>
    obtain ⟨hpath, hpaths⟩ := List.forall_mem_cons.mp hp
    obtain ⟨files, hf⟩ := candidates_total hs hpath
    obtain ⟨added, ha, hchecked, hnext⟩ := loadFiles_ready hd files hs.tail hdone
    obtain ⟨corpus, hc, hall⟩ := ih hpaths hnext hchecked
    rw [loadPaths, hf]
    dsimp only
    rw [ha]
    exact ⟨corpus, hc, hall⟩

/-- **Paths that are there load**, and every document has passed the check. -/
theorem load_ready {s : Store} {d : Disk} {paths : List String} (hd : d.FaultsReported)
    (hs : s.Ready d paths) (hp : ∀ path ∈ paths, d.contains (Path.ofText path) = true) :
    ∃ corpus, (s.load d paths).outcome = .ok corpus ∧ CheckedDocuments corpus :=
  loadPaths_ready hd hp hs fun _ he => absurd he List.not_mem_nil

end Store

end Compliance
