import Compliance.Proofs.LoadOrder
import Compliance.Proofs.StoreHistory

/-! # The types of discovered files

Discovery goes by the end of a name, and the type of a file by the suffix of its path.

* `Path.ending_name`, `Path.ending_text`: a text that ends like a file name ends like the name of
  its path, and the other way round.
* `Path.suffixOf_point`: the suffix is what discovery looked for, unless the name is nothing else.
* `Store.BareName`, `fileType?_of_isNameOf`: so the two agree but for names that are an extension.
* `parse_untyped`: which files are reported to be of no type.
* `discovered_typed`: the types of all files that are discovered, and the reports about them.
-/

namespace Compliance

namespace Path

/-! ## The end of a path -/

theorem pieces_append {ending : List Char} (h : '/' ∉ ending) (cs : List Char) :
    ∃ front last, pieces (cs ++ ending) = front ++ [last ++ ending] := by
  induction cs with
  | nil => exact ⟨[], [], pieces_of_notMem h⟩
  | cons c cs ih =>
    obtain ⟨front, last, hpieces⟩ := ih
    rw [List.cons_append, pieces, hpieces]
    cases front with
    | nil =>
      by_cases hc : c = '/'
      · exact ⟨[[]], last, if_pos hc⟩
      · exact ⟨[], c :: last, if_neg hc⟩
    | cons first front =>
      by_cases hc : c = '/'
      · exact ⟨[] :: first :: front, last, if_pos hc⟩
      · exact ⟨(c :: first) :: front, last, if_neg hc⟩

theorem isName_of_two_le {piece : String} (h : 2 ≤ piece.length) :
    (!piece.isEmpty && piece != ".") = true := by
  rw [Bool.and_eq_true, Bool.not_eq_true', Bool.eq_false_iff, bne_iff_ne]
  constructor
  · intro hempty
    rw [String.isEmpty_iff.mp hempty] at h
    exact absurd h (by decide)
  · rintro rfl
    exact absurd h (by decide)

/-- **What a text ends in, its last name ends in**, if that is more than a single dot. -/
theorem ending_name {ending : List Char} (hslash : '/' ∉ ending) (hlong : 2 ≤ ending.length)
    {s : String} (h : ending <:+ s.toList) : ending <:+ (ofText s).name.toList := by
  obtain ⟨cs, hcs⟩ := h
  obtain ⟨front, last, hpieces⟩ := pieces_append hslash cs
  have hlength : 2 ≤ (String.ofList (last ++ ending)).length := by
    rw [String.length_ofList, List.length_append]
    omega
  have hname : (ofText s).name = String.ofList (last ++ ending) := by
    simp only [name, ofText, ← hcs, hpieces, List.map_append, List.map_cons, List.map_nil,
      List.filter_append, List.filter_cons, isName_of_two_le hlength, if_true, List.filter_nil,
      List.getLast?_concat, Option.getD_some]
  rw [hname, String.toList_ofList]
  exact List.suffix_append last ending

theorem ending_intercalate {names : List String} {n : String} (h : names.getLast? = some n) :
    n.toList <:+ ("/".intercalate names).toList := by
  induction names with
  | nil => cases h
  | cons first names ih =>
    cases names with
    | nil =>
      obtain rfl : first = n := by simpa using h
      simp
    | cons next names =>
      rw [List.getLast?_cons_cons] at h
      rw [String.intercalate_cons_cons, String.toList_append]
      exact (ih h).trans (List.suffix_append _ _)

theorem ending_text {p : Path} {n : String} (h : p.names.getLast? = some n) :
    n.toList <:+ p.text.toList := by
  have hnames : p.names.isEmpty = false := by
    cases hp : p.names with
    | nil =>
      rw [hp] at h
      cases h
    | cons first names => rfl
  unfold text
  rw [hnames, Bool.and_false, if_neg Bool.false_ne_true, String.toList_append]
  exact (ending_intercalate h).trans (List.suffix_append _ _)

/-! ## Suffixes -/

/-- **The suffix of a name with a last dot**: none, if the name begins with it. -/
theorem suffixOf_point {ext : List Char} (hdot : '.' ∉ ext) (hne : ext ≠ []) (stem : List Char) :
    suffixOf (stem ++ '.' :: ext) = if stem = [] then [] else '.' :: ext := by
  have htail : ((stem ++ '.' :: ext).reverse.takeWhile (· != '.')).reverse = ext := by
    have hall : ∀ c ∈ ext.reverse, (c != '.') = true := by
      intro c hc
      rw [bne_iff_ne]
      rintro rfl
      exact hdot (List.mem_reverse.mp hc)
    rw [List.reverse_append, List.reverse_cons, List.append_assoc,
      List.takeWhile_append_of_pos hall]
    simp
  have hfront : (stem ++ '.' :: ext).length ≤ ext.length + 1 ↔ stem = [] := by
    rw [List.length_append, List.length_cons, ← List.length_eq_zero_iff]
    omega
  have hempty : ext.isEmpty = false := by simpa using hne
  unfold suffixOf
  dsimp only
  rw [htail, hempty]
  simp only [Bool.false_or, decide_eq_true_eq, hfront]

end Path

namespace FileType

theorem ofName?_name (type : FileType) : ofName? type.name = some type := by
  cases type <;> rfl

/-- What the name of a data file ends in. -/
def ending (type : FileType) : List Char := '.' :: type.name.toList

theorem slash_notMem_ending (type : FileType) : '/' ∉ type.ending := by
  cases type <;> decide

theorem two_le_length_ending (type : FileType) : 2 ≤ type.ending.length := by
  cases type <;> decide

theorem suffixOf_ending (type : FileType) (stem : List Char) :
    Path.suffixOf (stem ++ type.ending) = if stem = [] then [] else type.ending := by
  cases type <;> exact Path.suffixOf_point (by decide) (by decide) stem

theorem dropWhile_ending (type : FileType) :
    String.ofList (type.ending.dropWhile (· == '.')) = type.name := by
  cases type <;> decide

end FileType

namespace Store

variable {s : Store} {d : Disk} {file : String} {type : FileType}

/-! ## Types -/

/-- The last name of a file is the extension of a type and nothing else. -/
def BareName (type : FileType) (file : String) : Prop :=
  (Path.ofText file).name.toList = type.ending

instance : Decidable (BareName type file) :=
  inferInstanceAs (Decidable ((Path.ofText file).name.toList = type.ending))

theorem fileType?_of_bareName (h : BareName type file) : s.fileType? file = none := by
  have hsuffix : Path.suffixOf (Path.ofText file).name.toList = [] := by
    have hall := type.suffixOf_ending []
    rw [List.nil_append, if_pos rfl] at hall
    rw [h, hall]
  unfold fileType? Path.extension
  rw [hsuffix]
  rfl

/-- **The type of a file whose name ends like that of a data file**: the type that it ends like,
unless there is nothing in front of the end. -/
theorem fileType?_of_isNameOf (h : isNameOf type file = true) (htype : type ∈ s.fileTypes) :
    s.fileType? file = if BareName type file then none else some type := by
  by_cases hbare : BareName type file
  · rw [if_pos hbare, fileType?_of_bareName hbare]
  · have hend : type.ending <:+ (Path.ofText file).name.toList :=
      Path.ending_name type.slash_notMem_ending type.two_le_length_ending
        (List.isSuffixOf_iff_suffix.mp h)
    obtain ⟨stem, hstem⟩ := hend
    have hfront : stem ≠ [] := by
      rintro rfl
      exact hbare hstem.symm
    have hextension : (Path.ofText file).extension = type.name := by
      unfold Path.extension
      rw [← hstem, type.suffixOf_ending, if_neg hfront, type.dropWhile_ending]
    unfold fileType?
    rw [if_neg hbare, hextension, type.ofName?_name]
    exact Option.filter_eq_some_iff.mpr ⟨rfl, List.contains_iff_mem.mpr htype⟩

/-- What discovery lists is spelled like a data file of the type that it is listed under. -/
theorem isNameOf_of_mem_filesIn {base : Path} (h : file ∈ filesIn d base type) :
    isNameOf type file = true := by
  unfold filesIn at h
  split at h
  · rename_i entries hdir
    obtain ⟨names, hnames, rfl⟩ := List.mem_map.mp h
    obtain ⟨stem, hlast⟩ := ((dataFiles_filesBelow entries type).mem names).mp hnames |>.2
    have hjoin : (base.join ⟨"", names⟩).names.getLast? = some (stem ++ "." ++ type.name) := by
      have hnames : (base.join ⟨"", names⟩).names = base.names ++ names := rfl
      rw [hnames, List.getLast?_append, hlast, Option.some_or]
    have hend : type.ending <:+ (stem ++ "." ++ type.name).toList :=
      List.isSuffixOf_iff_suffix.mp (isNameOf_iff.mpr ⟨stem, rfl⟩)
    exact List.isSuffixOf_iff_suffix.mpr (hend.trans (Path.ending_text hjoin))
  · cases h

/-! ## Reports -/

/-- The report that the name of a file is not that of a data file. -/
def untyped (file : String) : Message := .error (file ++ ": Failed to determine file type")

theorem untyped_ne_failed (file reason : String) :
    untyped file ≠ .error (file ++ ": Failed to parse file: " ++ reason) := by
  intro h
  have htext := congrArg (fun m : Message => m.text.toList) h
  simp [untyped, Message.error] at htext

/-- **A sound store reports exactly the files without a type.** -/
theorem parse_untyped (hs : s.Sound) (d : Disk) (file : String) :
    untyped file ∈ (s.parse d file).messages ↔ s.fileType? file = none := by
  have h := parsed s d file
  generalize s.parse d file = step at h
  cases h with
  | remembered hv =>
    obtain ⟨-, -, type, htype⟩ := hs.remembered hv
    simp [htype]
  | unknown _ htype => simp [htype, untyped]
  | empty _ htype _ => simp [htype]
  | document _ htype _ _ => simp [htype]
  | reported _ htype _ _ => simp [htype, untyped_ne_failed]
  | ended _ htype _ _ => simp [htype]

theorem reached_of_dir {module : String} {files : List String}
    (hdir : d.containsDir (Path.ofText module) = true)
    (hopen : d.refuses (Path.ofText module) = false)
    (h : s.discover d (Path.ofText module) = .ok files) : s.reached d [module] = (files, none) := by
  have hcandidates : s.candidates d module = .ok files := by
    unfold Disk.containsDir at hdir
    unfold candidates
    rw [hopen, if_neg Bool.false_ne_true]
    split at hdir
    · rename_i entries hentries
      rw [hentries, ← h]
    · cases hdir
  simp [reached, hcandidates]

theorem readingsOf_sound (hs : s.Sound) {files : List String} {r : Reading}
    (hr : r ∈ readingsOf d s files) : r.store.Sound ∧ r.store.fileTypes = s.fileTypes := by
  obtain ⟨before, after, hsplit⟩ := List.append_of_mem hr
  have hlinked := (loadFiles_readings d files s []).1
  rw [hsplit] at hlinked
  exact ⟨hlinked.upTo.sound hs, hlinked.upTo.fileTypes⟩

/-- **Discovery and types agree**, but for files whose whole name is an extension. After every run
from a fresh store, discovery lists the data files below the data directories by type, unless the
system refuses to look through one of these; and each file has the type that it is listed under, or
none if there is nothing in front of the extension. These are the files among the discovered that a
load reports to be of no type. -/
theorem discovered_typed (dirs typeNames : List String) (disk : Disk) (requests : List Request)
    (module : String) :
    let types := typeNames.filterMap FileType.ofName?
    let σ := Site.after ⟨new (dirs.map Tree.str) types, disk⟩ requests
    let base := Path.ofText module
    let listed dir type := filesIn σ.disk (base.join (Path.ofText dir)) type
    let files := dirs.flatMap fun dir => types.flatMap (listed dir)
    σ.store.discover σ.disk base = (match barred? σ.disk dirs types base with
      | some fault => .error fault
      | none => .ok files) ∧
    (Opens σ.disk dirs types module → σ.store.discover σ.disk base = .ok files ∧
      (σ.disk.containsDir base = true → σ.store.reached σ.disk [module] = (files, none))) ∧
    (∀ type ∈ types, ∀ dir, ∀ file ∈ listed dir type,
      σ.store.fileType? file = if BareName type file then none else some type) ∧
    ∀ paths,
      let readings := readingsOf σ.disk σ.store (σ.store.reached σ.disk paths).1
      (σ.store.load σ.disk paths).messages = readings.flatMap (·.step.messages) ∧
      ∀ r ∈ readings, r.file ∈ files →
        (untyped r.file ∈ r.step.messages ↔ ∃ type ∈ types, BareName type r.file) := by
  intro types σ base listed files
  have hlinked := (Site.after_linked requests ⟨new (dirs.map Tree.str) types, disk⟩).1
  have hdirs : σ.store.dataDirs = dirs.map Tree.str := hlinked.dataDirs
  have htypes : σ.store.fileTypes = types := hlinked.fileTypes
  have hsound : σ.store.Sound := hlinked.sound (sound_new _ types)
  have hdiscover : σ.store.discover σ.disk base = (match barred? σ.disk dirs types base with
      | some fault => .error fault
      | none => .ok files) := by
    have hfound := discover_eq hdirs σ.disk base
    rw [htypes] at hfound
    exact hfound
  have hfiles : Opens σ.disk dirs types module → σ.store.discover σ.disk base = .ok files :=
    fun hopens => by rw [hdiscover, barred?_of_opens hopens]
  have htyped : ∀ type ∈ types, ∀ dir, ∀ file ∈ listed dir type,
      σ.store.fileType? file = if BareName type file then none else some type :=
    fun type htype dir file hfile =>
      fileType?_of_isNameOf (isNameOf_of_mem_filesIn hfile) (htypes ▸ htype)
  refine ⟨hdiscover, fun hopens => ⟨hfiles hopens, fun hdir =>
    reached_of_dir hdir hopens.reached (hfiles hopens)⟩, htyped, fun paths => ?_⟩
  refine ⟨(load_readings _ _ paths).2, fun r hr hfile => ?_⟩
  obtain ⟨hsound', htypes'⟩ := readingsOf_sound hsound hr
  obtain ⟨dir, -, hfile⟩ := List.mem_flatMap.mp hfile
  obtain ⟨type, htype, hfile⟩ := List.mem_flatMap.mp hfile
  rw [Reading.step, parse_untyped hsound', fileType?_congr htypes', htyped type htype dir _ hfile]
  constructor
  · intro hnone
    refine ⟨type, htype, Classical.byContradiction fun hbare => ?_⟩
    rw [if_neg hbare] at hnone
    cases hnone
  · rintro ⟨other, -, hbare⟩
    rw [← htyped type htype dir _ hfile]
    exact fileType?_of_bareName hbare

-- a name that is an extension is discovered but has no type, which a further dot would give it
example :
    let d : Disk := ⟨[("data", .dir [(".yaml", .file "version: 2.0.0\n".toUTF8)])], []⟩
    let s := new [.str "data"] [.yaml]
    (s.discover d (Path.ofText ".")).toOption = some ["data/.yaml"] ∧
      s.fileType? "data/.yaml" = none ∧ s.fileType? "data/..yaml" = some .yaml := by
  cbv

end Store

end Compliance
