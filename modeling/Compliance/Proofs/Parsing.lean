import Compliance.Proofs.Loading

/-! # Parsing and loading files

A store remembers the documents that it has read. Here is what one parse does to the store, in each
of the ways that a parse can go, and what follows for a list of files parsed one after the other.

* `Store.Parsed`, `parsed`: the ways in which a file is parsed.
* `get?_parse_self`, `get?_parse_of_ne`: a parse changes what is remembered of its own file only.
* `Store.Sound`: what is remembered is no null, has passed the check, and is named like a data file.
* `parse_after`: on one disk, a parse changes no other.
* `Store.gather`, `loadFiles_outcome`: so a list of files gives what each of them gives by itself.
* `get?_gather`, `keys_gather`: which documents these are, and in which order.
* `Store.reached`, `loadPaths_eq`: to load paths is to parse the files that they stand for, up to
  the first path that stands for none.
* `load_outcome`: how a load ends.
-/

namespace Compliance

/-- The fault is not reported but ends the run. -/
def DocumentFault.endsRun : DocumentFault → Bool
  | .yaml fault => fault.endsRun
  | _ => false

/-- The documents with that of one more file; a null is left out. -/
def Corpus.add (documents : Corpus) (file : String) : Tree → Corpus
  | .null => documents
  | value => documents.insert file value

namespace Store

variable {s : Store} {d : Disk} {file : String}

/-! ## One file -/

/-- **The ways in which a file is parsed**, and what each leaves. -/
inductive Parsed (s : Store) (d : Disk) (file : String) : Step Tree → Prop where
  | remembered {value : Tree} : s.remembered.get? file = some value →
      Parsed s d file ⟨s, [], .ok value⟩
  | unknown : s.remembered.get? file = none → s.fileType? file = none →
      Parsed s d file ⟨s, [.error (file ++ ": Failed to determine file type")], .ok .null⟩
  | empty {type : FileType} : s.remembered.get? file = none → s.fileType? file = some type →
      judge d type file = .ok .null → Parsed s d file ⟨s, [], .ok .null⟩
  | document {type : FileType} {value : Tree} : s.remembered.get? file = none →
      s.fileType? file = some type → judge d type file = .ok value → value ≠ .null →
      Parsed s d file ⟨{ s with remembered := s.remembered.insert file value }, [], .ok value⟩
  | reported {type : FileType} {fault : DocumentFault} : s.remembered.get? file = none →
      s.fileType? file = some type → judge d type file = .error fault → fault.endsRun = false →
      Parsed s d file
        ⟨s, [.error (file ++ ": Failed to parse file: " ++ fault.message)], .ok .null⟩
  | ended {type : FileType} {fault : Yaml.Fault} : s.remembered.get? file = none →
      s.fileType? file = some type → judge d type file = .error (.yaml fault) →
      fault.endsRun = true → Parsed s d file ⟨s, [], .error (.document fault)⟩

theorem parsed (s : Store) (d : Disk) (file : String) : Parsed s d file (s.parse d file) := by
  unfold parse
  split
  · rename_i value hv
    exact .remembered hv
  rename_i hnone
  split
  · rename_i htype
    exact .unknown hnone htype
  rename_i type htype
  split
  · rename_i hj
    exact .empty hnone htype hj
  · rename_i value hne hj
    exact .document hnone htype hj hne
  · rename_i fault hj
    split
    · rename_i hends
      exact .ended hnone htype hj hends
    · rename_i hends
      exact .reported hnone htype hj (Bool.eq_false_iff.mpr hends)
  · rename_i fault hyaml hj
    have hends : fault.endsRun = false := by
      cases fault with
      | yaml fault => exact absurd rfl (hyaml fault)
      | _ => rfl
    exact .reported hnone htype hj hends

theorem fileType?_congr {s' : Store} (h : s.fileTypes = s'.fileTypes) (file : String) :
    s.fileType? file = s'.fileType? file := by
  unfold fileType?
  rw [h]

theorem parse_settings (s : Store) (d : Disk) (file : String) :
    (s.parse d file).store.dataDirs = s.dataDirs ∧
      (s.parse d file).store.fileTypes = s.fileTypes := by
  have h := parsed s d file
  generalize s.parse d file = step at h
  cases h <;> exact ⟨rfl, rfl⟩

theorem parse_of_remembered {value : Tree} (h : s.remembered.get? file = some value) (d : Disk) :
    s.parse d file = ⟨s, [], .ok value⟩ := by
  unfold parse
  rw [h]

/-- **What a store remembers of a file** once the file was parsed: the document, if it gave one. -/
theorem get?_parse_self (hs : ∀ value, s.remembered.get? file = some value → value ≠ .null)
    (d : Disk) (value : Tree) :
    (s.parse d file).store.remembered.get? file = some value ↔
      value ≠ .null ∧ (s.parse d file).outcome = .ok value := by
  have h := parsed s d file
  generalize s.parse d file = step at h
  cases h with
  | remembered hv =>
    simp only [hv, Option.some.injEq, Except.ok.injEq]
    constructor
    · rintro rfl
      exact ⟨hs _ hv, rfl⟩
    · exact And.right
  | document hnone _ _ hne =>
    simp only [Table.get?_insert, BEq.rfl, if_true, Option.some.injEq, Except.ok.injEq]
    constructor
    · rintro rfl
      exact ⟨hne, rfl⟩
    · exact And.right
  | unknown hnone | empty hnone | reported hnone =>
    simp only [hnone, Except.ok.injEq]
    constructor
    · exact fun h => nomatch h
    · rintro ⟨hne, rfl⟩
      exact absurd rfl hne
  | ended hnone => simp [hnone]

theorem get?_parse_of_ne {other : String} (hne : other ≠ file) (s : Store) (d : Disk) :
    (s.parse d file).store.remembered.get? other = s.remembered.get? other := by
  have h := parsed s d file
  generalize s.parse d file = step at h
  cases h with
  | document =>
    have hkey : (file == other) = false := beq_eq_false_iff_ne.mpr (Ne.symm hne)
    rw [Table.get?_insert, hkey]
    rfl
  | _ => rfl

theorem get?_parse_of_some {other : String} {value : Tree}
    (h : s.remembered.get? other = some value) (d : Disk) (file : String) :
    (s.parse d file).store.remembered.get? other = some value := by
  by_cases hfile : other = file
  · rw [← hfile, parse_of_remembered h]
    exact h
  · rw [get?_parse_of_ne hfile, h]

/-- **What a parse gives depends on what is remembered of its file**, and on the file types. -/
theorem parse_congr {s' : Store} (htypes : s.fileTypes = s'.fileTypes)
    (h : s.remembered.get? file = s'.remembered.get? file) (d : Disk) :
    (s.parse d file).messages = (s'.parse d file).messages ∧
      (s.parse d file).outcome = (s'.parse d file).outcome := by
  unfold parse
  rw [h, fileType?_congr htypes file]
  split
  · exact ⟨rfl, rfl⟩
  split
  · exact ⟨rfl, rfl⟩
  split
  · exact ⟨rfl, rfl⟩
  · exact ⟨rfl, rfl⟩
  · split <;> exact ⟨rfl, rfl⟩
  · exact ⟨rfl, rfl⟩

/-! ## Sound stores -/

/-- What a store remembers is no null, has passed the check, and comes from a file whose name is
that of a data file. -/
structure Sound (s : Store) : Prop where
  value : ∀ e ∈ s.remembered, e.2 ≠ .null ∧ e.2.check = .ok ()
  named : ∀ e ∈ s.remembered, ∃ type, s.fileType? e.1 = some type

theorem sound_new (dirs : List Tree) (types : List FileType) : (new dirs types).Sound :=
  ⟨fun _ he => absurd he List.not_mem_nil, fun _ he => absurd he List.not_mem_nil⟩

theorem Sound.remembered (h : s.Sound) {value : Tree}
    (hv : s.remembered.get? file = some value) :
    value ≠ .null ∧ value.check = .ok () ∧ ∃ type, s.fileType? file = some type := by
  obtain ⟨name, hm, hname⟩ := Table.mem_of_get? hv
  obtain rfl : name = file := eq_of_beq hname
  have hnamed := h.named _ hm
  have hvalue := h.value _ hm
  refine ⟨hvalue.1, hvalue.2, ?_⟩
  exact hnamed

theorem Sound.parse (h : s.Sound) (d : Disk) (file : String) : (s.parse d file).store.Sound := by
  have hp := parsed s d file
  generalize s.parse d file = step at hp
  cases hp with
  | @document type value _ htype hj hne =>
    refine ⟨fun e he => ?_, fun e he => ?_⟩
    · rcases Table.mem_insert he with hold | ⟨hnew, -⟩
      · exact h.value e hold
      · rw [hnew]
        exact ⟨hne, check_of_judge hj⟩
    · have hsame : fileType? { s with remembered := s.remembered.insert file value } e.1 =
          s.fileType? e.1 := fileType?_congr rfl e.1
      rw [hsame]
      rcases Table.mem_insert he with hold | ⟨-, hkey | hkey⟩
      · exact h.named e hold
      · rw [hkey]
        exact ⟨_, htype⟩
      · obtain ⟨e', he', hkey⟩ := List.mem_map.mp hkey
        rw [← hkey]
        exact h.named e' he'
  | _ => exact h

theorem fileType?_mergedName (s : Store) : s.fileType? mergedName = none := by
  have hname : FileType.ofName? (Path.ofText mergedName).extension = none := by
    decide
  unfold fileType?
  rw [hname]
  rfl

/-! ## Files of one disk, one after the other -/

/-- **While the disk stays as it is, a parse changes no other**, not even of its own file. -/
theorem parse_after (s : Store) (d : Disk) (file other : String) :
    ((s.parse d file).store.parse d other).messages = (s.parse d other).messages ∧
      ((s.parse d file).store.parse d other).outcome = (s.parse d other).outcome := by
  by_cases hfile : other = file
  · subst hfile
    have h := parsed s d other
    generalize hstep : s.parse d other = step at h
    cases h with
    | @document _ value =>
      -- only here is the store another one, and it remembers the document that it gave
      have hnow : (s.remembered.insert other value).get? other = some value := by
        rw [Table.get?_insert, BEq.rfl, if_pos rfl]
      rw [parse_of_remembered (s := { s with remembered := _ }) hnow]
      exact ⟨rfl, rfl⟩
    | _ =>
      rw [hstep]
      exact ⟨rfl, rfl⟩
  · exact parse_congr (parse_settings s d file).2 (get?_parse_of_ne hfile s d) d

/-- The documents of files, each parsed by the store as it is, up to the first that ends the run. -/
def gather (s : Store) (d : Disk) (documents : Corpus) : List String → Except LoadFault Corpus
  | [] => .ok documents
  | file :: files =>
    match (s.parse d file).outcome with
    | .error fault => .error fault
    | .ok value => s.gather d (documents.add file value) files

theorem gather_congr {s' : Store} : ∀ {files : List String} {documents : Corpus},
    (∀ file ∈ files, (s.parse d file).outcome = (s'.parse d file).outcome) →
    s.gather d documents files = s'.gather d documents files
  | [], _, _ => rfl
  | file :: files, documents, h => by
    have hrest : ∀ value, s.gather d (documents.add file value) files =
        s'.gather d (documents.add file value) files := fun value =>
      gather_congr fun other hm => h other (List.mem_cons_of_mem _ hm)
    rw [gather, gather, h file List.mem_cons_self]
    simp only [hrest]

/-- **What loading remembers on its way has no effect on what it gives.** -/
theorem loadFiles_outcome (d : Disk) : ∀ (files : List String) (s : Store) (documents : Corpus),
    (loadFiles d s documents files).outcome = s.gather d documents files
  | [], _, _ => rfl
  | file :: files, s, documents => by
    have hsame : ∀ documents, (s.parse d file).store.gather d documents files =
        s.gather d documents files := fun documents =>
      gather_congr fun other _ => (parse_after s d file other).2
    rw [loadFiles, gather]
    cases (s.parse d file).outcome with
    | error fault => rfl
    | ok value =>
      have hrest := loadFiles_outcome d files (s.parse d file).store (documents.add file value)
      rw [hsame] at hrest
      exact hrest

theorem gather_fault {before after : List String} {fault : LoadFault} {documents : Corpus}
    (hbefore : ∀ other ∈ before, ∃ value, (s.parse d other).outcome = .ok value)
    (h : (s.parse d file).outcome = .error fault) :
    s.gather d documents (before ++ file :: after) = .error fault := by
  induction before generalizing documents with
  | nil => rw [List.nil_append, gather, h]
  | cons other before ih =>
    obtain ⟨value, hv⟩ := hbefore other List.mem_cons_self
    rw [List.cons_append, gather, hv]
    exact ih fun file hm => hbefore file (List.mem_cons_of_mem _ hm)

theorem gather_total : ∀ {files : List String} {documents : Corpus},
    (∀ file ∈ files, ∃ value, (s.parse d file).outcome = .ok value) →
    ∃ corpus, s.gather d documents files = .ok corpus
  | [], documents, _ => ⟨documents, rfl⟩
  | file :: files, documents, h => by
    obtain ⟨value, hv⟩ := h file List.mem_cons_self
    rw [gather, hv]
    exact gather_total fun other hm => h other (List.mem_cons_of_mem _ hm)

/-- The document that a file holds; a null is none. -/
def document? (s : Store) (d : Disk) (file : String) : Option Tree :=
  match (s.parse d file).outcome with
  | .ok .null => none
  | .ok value => some value
  | .error _ => none

theorem document?_eq_some {value : Tree} :
    s.document? d file = some value ↔ value ≠ .null ∧ (s.parse d file).outcome = .ok value := by
  unfold document?
  split
  · rename_i h
    simp only [h, Except.ok.injEq]
    constructor
    · exact fun h => nomatch h
    · rintro ⟨hne, rfl⟩
      exact absurd rfl hne
  · rename_i value' hne h
    simp only [h, Option.some.injEq, Except.ok.injEq]
    constructor
    · rintro rfl
      exact ⟨hne, rfl⟩
    · exact And.right
  · rename_i h
    simp [h]

theorem Sound.document? (h : s.Sound) {value : Tree} (hv : s.document? d file = some value) :
    value ≠ .null ∧ value.check = .ok () ∧ ∃ type, s.fileType? file = some type := by
  obtain ⟨hne, hout⟩ := document?_eq_some.mp hv
  have hkept := (get?_parse_self (fun _ hm => (h.remembered hm).1) d value).mpr ⟨hne, hout⟩
  have hafter := (h.parse d file).remembered hkept
  rw [fileType?_congr (parse_settings s d file).2] at hafter
  exact hafter

theorem add_of_outcome {value : Tree} (h : (s.parse d file).outcome = .ok value)
    (documents : Corpus) : documents.add file value =
      match s.document? d file with
      | none => documents
      | some value => documents.insert file value := by
  by_cases hnull : value = .null
  · subst hnull
    unfold document?
    rw [h]
    rfl
  · rw [document?_eq_some.mpr ⟨hnull, h⟩]
    unfold Corpus.add
    split
    · exact absurd rfl hnull
    · rfl

theorem gather_cons {files : List String} {documents corpus : Corpus}
    (h : s.gather d documents (file :: files) = .ok corpus) :
    ∃ value, (s.parse d file).outcome = .ok value ∧
      s.gather d (documents.add file value) files = .ok corpus := by
  rw [gather] at h
  split at h
  · cases h
  · rename_i value hv
    exact ⟨value, hv, h⟩

theorem distinct_gather : ∀ {files : List String} {documents corpus : Corpus},
    Table.Distinct documents → s.gather d documents files = .ok corpus → Table.Distinct corpus
  | [], _, _, hd, h => Except.ok.inj h ▸ hd
  | file :: files, documents, _, hd, h => by
    obtain ⟨value, hv, hrest⟩ := gather_cons h
    refine distinct_gather ?_ hrest
    rw [add_of_outcome hv]
    split
    · exact hd
    · exact Table.distinct_insert hd _ _

/-- **What was loaded**: the documents of the files, and what was there before. -/
theorem get?_gather : ∀ {files : List String} {documents corpus : Corpus},
    s.gather d documents files = .ok corpus → ∀ file, corpus.get? file =
      if file ∈ files then (s.document? d file).or (documents.get? file)
      else documents.get? file
  | [], documents, corpus, h, file => by
    obtain rfl := Except.ok.inj h
    rw [if_neg List.not_mem_nil]
  | first :: files, documents, corpus, h, file => by
    obtain ⟨value, hv, hrest⟩ := gather_cons h
    rw [get?_gather hrest file, add_of_outcome hv]
    -- a file that comes again gives the same document, so it does not matter which one counts
    by_cases hfile : file = first
    · subst hfile
      rw [if_pos List.mem_cons_self]
      cases hdoc : s.document? d file with
      | none => simp
      | some value => simp [Table.get?_insert]
    · have hkey : (first == file) = false := beq_eq_false_iff_ne.mpr (Ne.symm hfile)
      have hget : Table.get? (match s.document? d first with
          | none => documents
          | some value => documents.insert first value) file = documents.get? file := by
        split
        · rfl
        · rw [Table.get?_insert, hkey]
          rfl
      rw [hget]
      simp [hfile]

/-- **The order of what was loaded**: new documents come last, each where its file came first. -/
theorem keys_gather : ∀ {files : List String} {documents corpus : Corpus},
    s.gather d documents files = .ok corpus → corpus.keys = documents.keys ++
      (files.filter fun file => (s.document? d file).isSome && !documents.contains file).eraseDups
  | [], documents, corpus, h => by
    obtain rfl := Except.ok.inj h
    simp
  | first :: files, documents, corpus, h => by
    obtain ⟨value, hv, hrest⟩ := gather_cons h
    rw [keys_gather hrest, add_of_outcome hv]
    cases hdoc : s.document? d first with
    | none => simp [hdoc]
    | some value =>
      simp only [Table.keys_insert, Table.contains_insert, List.filter_cons, hdoc]
      cases hold : documents.contains first with
      | true =>
        -- the file keeps its place, and its name is not new
        have hsame : ∀ file, (first == file || documents.contains file) =
            documents.contains file := fun file => by
          by_cases hfile : first = file
          · rw [← hfile, hold, Bool.or_true]
          · rw [beq_eq_false_iff_ne.mpr hfile, Bool.false_or]
        simp [hsame]
      | false =>
        simp only [Option.isSome_some, Bool.not_false, Bool.and_self, if_true, List.append_assoc,
          List.eraseDups_cons, List.filter_filter, List.singleton_append, Bool.false_eq_true,
          if_false]
        congr 4
        funext file
        have hsymm : (first == file) = (file == first) := BEq.comm
        rw [hsymm]
        cases file == first <;> simp

/-! ## The files of paths -/

/-- The files that paths stand for, up to the first path that stands for none, and why it does. -/
def reached (s : Store) (d : Disk) : List String → List String × Option LoadFault
  | [] => ([], none)
  | path :: paths =>
    match s.candidates d path with
    | .error fault => ([], some fault)
    | .ok files => (files ++ (s.reached d paths).1, (s.reached d paths).2)

/-- A step, and after it another one with what it gave. -/
def Step.andThen {α β : Type} (step : Step α) (next : Store → α → Step β) : Step β :=
  match step.outcome with
  | .error fault => ⟨step.store, step.messages, .error fault⟩
  | .ok a =>
    let rest := next step.store a
    { rest with messages := step.messages ++ rest.messages }

/-- A step that meets a fault at its end. -/
def Step.meets {α : Type} (step : Step α) : Option LoadFault → Step α
  | none => step
  | some fault => { step with outcome := step.outcome >>= fun _ => .error fault }

namespace Step

variable {α β γ : Type}

theorem andThen_congr {step : Step α} {next next' : Store → α → Step β}
    (h : ∀ a, next step.store a = next' step.store a) : step.andThen next = step.andThen next' := by
  unfold andThen
  simp only [h]

theorem andThen_assoc (step : Step α) (next : Store → α → Step β) (last : Store → β → Step γ) :
    (step.andThen next).andThen last = step.andThen fun s a => (next s a).andThen last := by
  unfold andThen
  cases step.outcome with
  | error fault => rfl
  | ok a =>
    cases hnext : (next step.store a).outcome <;> simp [hnext]

theorem meets_andThen (step : Step α) (next : Store → α → Step β) (fault : Option LoadFault) :
    (step.andThen next).meets fault = step.andThen fun s a => (next s a).meets fault := by
  cases fault with
  | none => rfl
  | some fault =>
    unfold andThen meets
    cases step.outcome <;> rfl

end Step

theorem loadFiles_cons (d : Disk) (s : Store) (documents : Corpus) (file : String)
    (files : List String) : loadFiles d s documents (file :: files) =
      (s.parse d file).andThen fun s value => loadFiles d s (documents.add file value) files := by
  unfold Step.andThen
  rw [loadFiles]
  cases (s.parse d file).outcome <;> rfl

theorem loadPaths_cons {path : String} {files : List String} (h : s.candidates d path = .ok files)
    (documents : Corpus) (paths : List String) : loadPaths d s documents (path :: paths) =
      (loadFiles d s documents files).andThen fun s documents =>
        loadPaths d s documents paths := by
  unfold Step.andThen
  rw [loadPaths, h]
  cases hout : (loadFiles d s documents files).outcome <;> simp only [hout]

theorem loadFiles_append (d : Disk) (more : List String) : ∀ (files : List String) (s : Store)
    (documents : Corpus), loadFiles d s documents (files ++ more) =
      (loadFiles d s documents files).andThen fun s documents => loadFiles d s documents more
  | [], _, _ => rfl
  | file :: files, s, documents => by
    rw [List.cons_append, loadFiles_cons, loadFiles_cons, Step.andThen_assoc]
    refine Step.andThen_congr fun value => ?_
    exact loadFiles_append d more files _ _

theorem loadFiles_settings (d : Disk) : ∀ (files : List String) (s : Store) (documents : Corpus),
    (loadFiles d s documents files).store.dataDirs = s.dataDirs ∧
      (loadFiles d s documents files).store.fileTypes = s.fileTypes
  | [], _, _ => ⟨rfl, rfl⟩
  | file :: files, s, documents => by
    have hfirst := parse_settings s d file
    rw [loadFiles]
    cases (s.parse d file).outcome with
    | error fault => exact hfirst
    | ok value =>
      have hrest := loadFiles_settings d files (s.parse d file).store (documents.add file value)
      exact ⟨hrest.1.trans hfirst.1, hrest.2.trans hfirst.2⟩

theorem discover_congr {s' : Store} {d' : Disk} {module : Path}
    (hbars : ∀ base, bars d s.fileTypes base = bars d' s'.fileTypes base)
    (h : ∀ dir, s.filesUnder d module dir = s'.filesUnder d' module dir) (dirs : List Tree) :
    discover.go s d module dirs = discover.go s' d' module dirs := by
  induction dirs with
  | nil => rfl
  | cons dir dirs ih =>
    cases dir with
    | scalar value =>
      cases value with
      | str name => rw [discover.go, discover.go, ih, h, hbars]
      | _ => rfl
    | _ => rfl

theorem candidates_congr {s' : Store} (hdirs : s.dataDirs = s'.dataDirs)
    (htypes : s.fileTypes = s'.fileTypes) (d : Disk) (path : String) :
    s.candidates d path = s'.candidates d path := by
  have hunder : ∀ module dir, s.filesUnder d module dir = s'.filesUnder d module dir := by
    intro module dir
    rw [filesUnder, filesUnder, htypes]
  have hbars : ∀ base, bars d s.fileTypes base = bars d s'.fileTypes base := by
    intro base
    rw [htypes]
  unfold candidates discover
  simp only [hdirs, discover_congr hbars (hunder _)]

theorem reached_congr {s' : Store} (hdirs : s.dataDirs = s'.dataDirs)
    (htypes : s.fileTypes = s'.fileTypes) (d : Disk) (paths : List String) :
    s.reached d paths = s'.reached d paths := by
  induction paths with
  | nil => rfl
  | cons path paths ih =>
    unfold reached
    rw [candidates_congr hdirs htypes, ih]

/-- **To load paths is to parse the files that they stand for**, up to the first path that stands
for none; that path ends loading, unless a file did. -/
theorem loadPaths_eq (d : Disk) : ∀ (paths : List String) (s : Store) (documents : Corpus),
    loadPaths d s documents paths =
      (loadFiles d s documents (s.reached d paths).1).meets (s.reached d paths).2
  | [], _, _ => rfl
  | path :: paths, s, documents => by
    rw [reached]
    cases hfiles : s.candidates d path with
    | error fault =>
      rw [loadPaths, hfiles]
      rfl
    | ok files =>
      rw [loadPaths_cons hfiles, loadFiles_append, Step.meets_andThen]
      refine Step.andThen_congr fun documents' => ?_
      -- the files of the later paths do not depend on what the earlier ones left
      have hsettings := loadFiles_settings d files s documents
      rw [loadPaths_eq d paths, reached_congr hsettings.1 hsettings.2]

/-- **How a load ends**: with the first fault that a file ends with; if there is none, with what the
paths end with, and else with the documents. -/
theorem load_outcome (s : Store) (d : Disk) (paths : List String) :
    (s.load d paths).outcome = s.gather d [] (s.reached d paths).1 >>= fun corpus =>
      match (s.reached d paths).2 with
      | none => .ok corpus
      | some fault => .error fault := by
  unfold load
  rw [loadPaths_eq, ← loadFiles_outcome]
  unfold Step.meets
  cases (s.reached d paths).2 with
  | none => cases (loadFiles d s [] (s.reached d paths).1).outcome <;> rfl
  | some fault => rfl

theorem load_ok {paths : List String} {corpus : Corpus}
    (h : (s.load d paths).outcome = .ok corpus) :
    s.gather d [] (s.reached d paths).1 = .ok corpus := by
  rw [load_outcome] at h
  cases hgather : s.gather d [] (s.reached d paths).1 with
  | error fault =>
    rw [hgather] at h
    cases h
  | ok documents =>
    rw [hgather] at h
    cases hfault : (s.reached d paths).2 with
    | none =>
      rw [hfault] at h
      exact h
    | some fault =>
      rw [hfault] at h
      cases h

end Store

end Compliance
