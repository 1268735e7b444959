import Compliance.Proofs.Parsing

/-! # What a store remembers over a whole run

A run asks one store for parses, discoveries and loads, while files are written and removed under
it. Every parse of the run, asked for or part of a load, is a `Reading`; the readings of a run in
order are its history.

* `Site`, `Request`, `Site.history`: a store with its disk, what can be asked, and the readings.
* `Linked`: readings that follow on one another.
* `Linked.remembered_iff`: what is remembered is what the readings gave, nulls and failures apart.
* `Linked.settled`: after a file gave a document, each reading of it gives that document, silently.
* `Judged`: what a reading of a file without a remembered document gives.
* `documents_remembered`: all of this for every run from a store that has read nothing.
-/

namespace Compliance.Store

/-- A parse as it took place: the store and the disk that it found, and its file. -/
structure Reading where
  store : Store
  disk : Disk
  file : String

namespace Reading

/-- What the parse left. -/
def step (r : Reading) : Step Tree := r.store.parse r.disk r.file

/-- The parse gave a document. -/
def Gives (r : Reading) (value : Tree) : Prop := value ≠ .null ∧ r.step.outcome = .ok value

end Reading

/-- Readings that lead from one store to another, each from where the one before it ended. -/
inductive Linked : Store → List Reading → Store → Prop where
  | nil (s : Store) : Linked s [] s
  | cons (d : Disk) (file : String) {s s' : Store} {rest : List Reading} :
      Linked (s.parse d file).store rest s' → Linked s (⟨s, d, file⟩ :: rest) s'

/-- **The four ways in which the file itself is judged**: its name is not that of a data file, it
holds a document or a null, it fails, or its fault ends the run without a report. -/
inductive Judged (s : Store) (d : Disk) (file : String) :
    List Message → Except LoadFault Tree → Prop where
  | unknown : s.fileType? file = none →
      Judged s d file [.error (file ++ ": Failed to determine file type")] (.ok .null)
  | holds {type : FileType} {value : Tree} : s.fileType? file = some type →
      judge d type file = .ok value → Judged s d file [] (.ok value)
  | fails {type : FileType} {fault : DocumentFault} : s.fileType? file = some type →
      judge d type file = .error fault → fault.endsRun = false →
      Judged s d file [.error (file ++ ": Failed to parse file: " ++ fault.message)] (.ok .null)
  | ends {type : FileType} {fault : Yaml.Fault} : s.fileType? file = some type →
      judge d type file = .error (.yaml fault) → fault.endsRun = true →
      Judged s d file [] (.error (.document fault))

/-! ## Links -/

section
variable {s s' s'' : Store} {d : Disk} {file : String} {readings more : List Reading}

theorem judged_of_forgotten (h : s.remembered.get? file = none) (d : Disk) :
    Judged s d file (s.parse d file).messages (s.parse d file).outcome := by
  have hp := parsed s d file
  generalize s.parse d file = step at hp
  cases hp with
  | remembered hv => cases h.symm.trans hv
  | unknown _ htype => exact .unknown htype
  | empty _ htype hj => exact .holds htype hj
  | document _ htype hj _ => exact .holds htype hj
  | reported _ htype hj hends => exact .fails htype hj hends
  | ended _ htype hj hends => exact .ends htype hj hends

theorem Judged.congr (h : s.fileTypes = s'.fileTypes) {ms : List Message}
    {outcome : Except LoadFault Tree} (hj : Judged s d file ms outcome) :
    Judged s' d file ms outcome := by
  have htype := fileType?_congr h file
  cases hj with
  | unknown hnone => exact .unknown (htype ▸ hnone)
  | holds hsome hj => exact .holds (htype ▸ hsome) hj
  | fails hsome hj hends => exact .fails (htype ▸ hsome) hj hends
  | ends hsome hj hends => exact .ends (htype ▸ hsome) hj hends

theorem Linked.append (h : Linked s readings s') (hmore : Linked s' more s'') :
    Linked s (readings ++ more) s'' := by
  induction h with
  | nil s => exact hmore
  | cons d file _ ih => exact .cons d file (ih hmore)

theorem Linked.upTo {r : Reading} (h : Linked s (readings ++ r :: more) s') :
    Linked s readings r.store := by
  induction readings generalizing s with
  | nil =>
    cases h with
    | cons d file _ => exact .nil s
  | cons first readings ih =>
    cases h with
    | cons d file hrest => exact .cons d file (ih hrest)

theorem Linked.fileTypes (h : Linked s readings s') : s'.fileTypes = s.fileTypes := by
  induction h with
  | nil s => rfl
  | cons d file _ ih => exact ih.trans (parse_settings _ d file).2

theorem Linked.dataDirs (h : Linked s readings s') : s'.dataDirs = s.dataDirs := by
  induction h with
  | nil s => rfl
  | cons d file _ ih => exact ih.trans (parse_settings _ d file).1

theorem Linked.sound (h : Linked s readings s') (hs : s.Sound) : s'.Sound := by
  induction h with
  | nil s => exact hs
  | cons d file _ ih => exact ih (hs.parse d file)

/-- **A store remembers what it did at first, and what the readings gave.** -/
theorem Linked.remembered_iff (h : Linked s readings s') (hs : s.Sound) {value : Tree} :
    s'.remembered.get? file = some value ↔ s.remembered.get? file = some value ∨
      ∃ r ∈ readings, r.file = file ∧ r.Gives value := by
  induction h with
  | nil s => simp
  | @cons d other s s' rest hrest ih =>
    have hnull : ∀ {name : String} (value : Tree), s.remembered.get? name = some value →
        value ≠ .null := fun _ hv => (hs.remembered hv).1
    -- the first reading decides about its own file; of others the store remembers what it did
    rw [ih (hs.parse d other)]
    constructor
    · rintro (hnow | ⟨r, hr, hgives⟩)
      · by_cases hfile : file = other
        · subst hfile
          have hgives := (get?_parse_self hnull d value).mp hnow
          exact .inr ⟨_, List.mem_cons_self, rfl, hgives⟩
        · rw [get?_parse_of_ne hfile] at hnow
          exact .inl hnow
      · exact .inr ⟨r, List.mem_cons_of_mem _ hr, hgives⟩
    · rintro (hbefore | ⟨r, hr, hfile, hgives⟩)
      · exact .inl (get?_parse_of_some hbefore d other)
      · rcases List.mem_cons.mp hr with rfl | hr
        · subst hfile
          exact .inl ((get?_parse_self hnull d value).mpr hgives)
        · exact .inr ⟨r, hr, hfile, hgives⟩

/-- **A file that gave a document gives it ever after**, and nothing is reported. -/
theorem Linked.settled {earlier r : Reading} {value : Tree} (hs : s.Sound)
    (h : Linked s (readings ++ r :: more) s') (hmem : earlier ∈ readings)
    (hfile : earlier.file = r.file) (hgives : earlier.Gives value) :
    r.step = ⟨r.store, [], .ok value⟩ := by
  have hremembered := (h.upTo.remembered_iff hs).mpr (.inr ⟨earlier, hmem, hfile, hgives⟩)
  exact parse_of_remembered hremembered r.disk

/-- **Until then each reading judges what the file holds at that moment.** -/
theorem Linked.judged {r : Reading} (hs : s.Sound) (hempty : s.remembered = [])
    (h : Linked s (readings ++ r :: more) s')
    (hfirst : ∀ earlier ∈ readings, earlier.file = r.file → ∀ value, ¬ earlier.Gives value) :
    Judged s r.disk r.file r.step.messages r.step.outcome := by
  have hforgotten : r.store.remembered.get? r.file = none := by
    cases hv : r.store.remembered.get? r.file with
    | none => rfl
    | some value =>
      rcases (h.upTo.remembered_iff hs).mp hv with hold | ⟨earlier, hmem, hfile, hgives⟩
      · rw [hempty] at hold
        cases hold
      · exact absurd hgives (hfirst earlier hmem hfile value)
  exact (judged_of_forgotten hforgotten r.disk).congr h.upTo.fileTypes

end

/-! ## The readings of a load -/

/-- The readings of files, one after the other, until one ends the run. -/
def readingsOf (d : Disk) (s : Store) : List String → List Reading
  | [] => []
  | file :: files =>
    ⟨s, d, file⟩ :: match (s.parse d file).outcome with
      | .error _ => []
      | .ok _ => readingsOf d (s.parse d file).store files

theorem loadFiles_readings (d : Disk) : ∀ (files : List String) (s : Store) (documents : Corpus),
    Linked s (readingsOf d s files) (loadFiles d s documents files).store ∧
      (loadFiles d s documents files).messages = (readingsOf d s files).flatMap (·.step.messages)
  | [], s, _ => ⟨.nil s, rfl⟩
  | file :: files, s, documents => by
    rw [loadFiles, readingsOf]
    cases (s.parse d file).outcome with
    | error fault =>
      refine ⟨.cons d file (.nil _), ?_⟩
      simp [Reading.step]
    | ok value =>
      obtain ⟨hlinked, hmessages⟩ :=
        loadFiles_readings d files (s.parse d file).store (documents.add file value)
      refine ⟨.cons d file hlinked, ?_⟩
      rw [List.flatMap_cons, ← hmessages]
      rfl

/-- **To load is to read the files that the paths stand for.** -/
theorem load_readings (s : Store) (d : Disk) (paths : List String) :
    Linked s (readingsOf d s (s.reached d paths).1) (s.load d paths).store ∧
      (s.load d paths).messages =
        (readingsOf d s (s.reached d paths).1).flatMap (·.step.messages) := by
  have h := loadFiles_readings d (s.reached d paths).1 s []
  unfold load
  rw [loadPaths_eq]
  cases (s.reached d paths).2 with
  | none => exact h
  | some fault => exact h

/-! ## Runs -/

/-- A store, and the disk that its steps see. -/
structure Site where
  store : Store
  disk : Disk

/-- What can happen: a file or a directory is written or removed, or the store is asked. -/
inductive Request where
  | write (path : Path) (entry : Entry)
  | remove (path : Path)
  | fileType (file : String)
  | parse (file : String)
  | discover (module : Path)
  | load (paths : List String)

namespace Site

/-- The site after a request. -/
def serve (σ : Site) : Request → Site
  | .write path entry => { σ with disk := σ.disk.putAt path entry }
  | .remove path => { σ with disk := σ.disk.remove path }
  | .fileType _ => σ
  | .parse file => { σ with store := (σ.store.parse σ.disk file).store }
  | .discover _ => σ
  | .load paths => { σ with store := (σ.store.load σ.disk paths).store }

def reports (σ : Site) : Request → List Message
  | .parse file => (σ.store.parse σ.disk file).messages
  | .load paths => (σ.store.load σ.disk paths).messages
  | _ => []

def readings (σ : Site) : Request → List Reading
  | .parse file => [⟨σ.store, σ.disk, file⟩]
  | .load paths => readingsOf σ.disk σ.store (σ.store.reached σ.disk paths).1
  | _ => []

/-- The site after a run. -/
def after (σ : Site) (requests : List Request) : Site := requests.foldl serve σ

/-- What a run reports. -/
def reported (σ : Site) : List Request → List Message
  | [] => []
  | request :: requests => σ.reports request ++ (σ.serve request).reported requests

def history (σ : Site) : List Request → List Reading
  | [] => []
  | request :: requests => σ.readings request ++ (σ.serve request).history requests

/-- **One request** links its readings from store to store, and reports what they report. -/
theorem serve_linked (σ : Site) (request : Request) :
    Linked σ.store (σ.readings request) (σ.serve request).store ∧
      σ.reports request = (σ.readings request).flatMap (·.step.messages) := by
  cases request with
  | parse file =>
    refine ⟨.cons σ.disk file (.nil _), ?_⟩
    simp [reports, readings, Reading.step]
  | load paths => exact load_readings σ.store σ.disk paths
  | write path entry => exact ⟨.nil _, rfl⟩
  | remove path => exact ⟨.nil _, rfl⟩
  | fileType file => exact ⟨.nil _, rfl⟩
  | discover module => exact ⟨.nil _, rfl⟩

theorem after_linked (requests : List Request) (σ : Site) :
    Linked σ.store (σ.history requests) (σ.after requests).store ∧
      σ.reported requests = (σ.history requests).flatMap (·.step.messages) := by
  induction requests generalizing σ with
  | nil => exact ⟨.nil _, rfl⟩
  | cons request requests ih =>
    obtain ⟨hfirst, hreports⟩ := σ.serve_linked request
    obtain ⟨hrest, hreported⟩ := ih (σ.serve request)
    refine ⟨hfirst.append hrest, ?_⟩
    rw [reported, history, List.flatMap_append, hreports, hreported]

end Site

/-! ## Documents of a load -/

theorem loaded_of_remembered {s : Store} {d : Disk} {paths : List String} {corpus : Corpus}
    {file : String} {value : Tree} (hs : s.Sound) (h : (s.load d paths).outcome = .ok corpus)
    (hfile : file ∈ (s.reached d paths).1) (hv : s.remembered.get? file = some value) :
    corpus.get? file = some value := by
  have hdocument : s.document? d file = some value := by
    refine document?_eq_some.mpr ⟨(hs.remembered hv).1, ?_⟩
    rw [parse_of_remembered hv]
  rw [get?_gather (load_ok h) file, if_pos hfile, hdocument]
  rfl

theorem loaded_sound {s : Store} {d : Disk} {paths : List String} {corpus : Corpus}
    (hs : s.Sound) (h : (s.load d paths).outcome = .ok corpus) :
    ∀ e ∈ corpus, e.2 ≠ .null ∧ e.2.check = .ok () ∧ e.1 ≠ mergedName := by
  rintro ⟨file, value⟩ he
  have hgather := load_ok h
  have hget := Table.get?_of_mem (distinct_gather List.Pairwise.nil hgather) he
  rw [get?_gather hgather] at hget
  have hdocument : s.document? d file = some value := by
    split at hget
    · simpa [Table.get?] using hget
    · cases hget
  obtain ⟨hne, hcheck, type, htype⟩ := hs.document? hdocument
  refine ⟨hne, hcheck, ?_⟩
  rintro rfl
  cases (fileType?_mergedName s).symm.trans htype

/-- **The documents of a run.** From a store that has read nothing, over every run of requests:
what is reported is what the readings report; once a reading of a file gave a document, every later
reading of it gives that document and reports nothing; until then each reading judges what the file
holds at that moment. Remembered are exactly the documents that readings gave. No load loses one of
those, and nothing remembered or loaded is a null, unchecked, or keyed like the merged view. -/
theorem documents_remembered (dirs : List Tree) (types : List FileType) (disk : Disk)
    (requests : List Request) :
    let start : Site := ⟨new dirs types, disk⟩
    let σ := start.after requests
    let history := start.history requests
    start.reported requests = history.flatMap (·.step.messages) ∧
    (∀ before r later, history = before ++ r :: later →
      (∀ earlier ∈ before, earlier.file = r.file → ∀ value, earlier.Gives value →
        r.step = ⟨r.store, [], .ok value⟩) ∧
      ((∀ earlier ∈ before, earlier.file = r.file → ∀ value, ¬ earlier.Gives value) →
        Judged start.store r.disk r.file r.step.messages r.step.outcome)) ∧
    (∀ file value, σ.store.remembered.get? file = some value ↔
      ∃ r ∈ history, r.file = file ∧ r.Gives value) ∧
    (∀ e ∈ σ.store.remembered, e.2 ≠ .null ∧ e.2.check = .ok ()) ∧
    ∀ paths corpus, (σ.store.load σ.disk paths).outcome = .ok corpus →
      (∀ r ∈ history, r.file ∈ (σ.store.reached σ.disk paths).1 → ∀ value, r.Gives value →
        corpus.get? r.file = some value) ∧
      ∀ e ∈ corpus, e.2 ≠ .null ∧ e.2.check = .ok () ∧ e.1 ≠ mergedName := by
  intro start σ history
  obtain ⟨hlinked, hreported⟩ := start.after_linked requests
  have hnew : start.store.Sound := sound_new dirs types
  have hsound : σ.store.Sound := hlinked.sound hnew
  have hremembered : ∀ file value, σ.store.remembered.get? file = some value ↔
      ∃ r ∈ history, r.file = file ∧ r.Gives value := fun file value => by
    rw [hlinked.remembered_iff hnew]
    exact or_iff_right fun h => nomatch h
  refine ⟨hreported, fun before r later hsplit => ?_, hremembered, hsound.value, ?_⟩
  · have hat : Linked start.store (before ++ r :: later) σ.store := hsplit ▸ hlinked
    exact ⟨fun earlier hmem hfile value hgives => hat.settled hnew hmem hfile hgives,
      hat.judged hnew rfl⟩
  · intro paths corpus hload
    refine ⟨fun r hr hfile value hgives => ?_, loaded_sound hsound hload⟩
    exact loaded_of_remembered hsound hload hfile ((hremembered r.file value).mpr
      ⟨r, hr, rfl, hgives⟩)

-- a node that does not fit its tag: nothing is reported, and there is no result
example : let step := (new [] [.yaml]).parse (Disk.oneFile "a.yaml" "!!int \"\"\n".toUTF8) "a.yaml"
    step.messages = [] ∧ step.outcome.toOption.isSome = false := by
  decide +kernel

end Compliance.Store
