import Compliance.Proofs.LoggedFacts
import Compliance.Store

/-! # What discovery lists

* `FileAt`, `mem_entryFiles`: the files at any depth below a directory, and that all are listed.
* `WellNamed`, `nodup_entryFiles`: where no directory has two entries of one name, none is listed
  twice.
* `namesLe_iff`: the order of the listing is the lexicographic order of the names.
* `DataFiles`, `filesIn_lists`: the data files of one type below one directory.
-/

namespace Compliance

namespace Directory

variable {entries inner : Directory} {name : String} {here names : List String} {e : Entry}

/-! ## Files below a directory -/

/-- The names lead from the entries of a directory down to a file. -/
inductive FileAt : Directory → List String → Prop where
  | file {entries : Directory} {name : String} {bytes : ByteArray} :
      (name, .file bytes) ∈ entries → FileAt entries [name]
  | dir {entries inner : Directory} {name : String} {names : List String} :
      (name, .dir inner) ∈ entries → FileAt inner names → FileAt entries (name :: names)

/-- No directory of the tree has two entries of one name. -/
inductive WellNamed : Directory → Prop where
  | mk {entries : Directory} : entries.keys.Nodup →
      (∀ name inner, (name, .dir inner) ∈ entries → WellNamed inner) → WellNamed entries

theorem FileAt.exists_entry (h : FileAt entries names) :
    ∃ name rest, names = name :: rest ∧ name ∈ entries.keys := by
  cases h with
  | file hm => exact ⟨_, _, rfl, List.mem_map_of_mem hm⟩
  | dir hm _ => exact ⟨_, _, rfl, List.mem_map_of_mem hm⟩

theorem fileAt_cons : FileAt ((name, e) :: entries) names ↔
    (∃ bytes, e = .file bytes ∧ names = [name]) ∨
    (∃ inner rest, e = .dir inner ∧ FileAt inner rest ∧ names = name :: rest) ∨
    FileAt entries names := by
  constructor
  · intro h
    cases h with
    | file hm =>
      rcases List.mem_cons.mp hm with heq | hm
      · cases heq
        exact .inl ⟨_, rfl, rfl⟩
      · exact .inr (.inr (.file hm))
    | dir hm hrest =>
      rcases List.mem_cons.mp hm with heq | hm
      · cases heq
        exact .inr (.inl ⟨_, _, rfl, hrest, rfl⟩)
      · exact .inr (.inr (.dir hm hrest))
  · rintro (⟨bytes, rfl, rfl⟩ | ⟨inner, rest, rfl, hrest, rfl⟩ | h)
    · exact .file List.mem_cons_self
    · exact .dir List.mem_cons_self hrest
    · cases h with
      | file hm => exact .file (List.mem_cons_of_mem _ hm)
      | dir hm hrest => exact .dir (List.mem_cons_of_mem _ hm) hrest

mutual

theorem mem_files : ∀ (e : Entry) (here names : List String), names ∈ Entry.files here e ↔
    (∃ bytes, e = .file bytes ∧ names = here) ∨
      ∃ inner rest, e = .dir inner ∧ FileAt inner rest ∧ names = here ++ rest
  | .file bytes, here, names => by
    simp [Entry.files]
  | .dir inner, here, names => by
    rw [Entry.files, mem_entryFiles inner here names]
    simp

/-- **Every file at any depth is listed**, behind the names that lead to the directory. -/
theorem mem_entryFiles : ∀ (entries : List (String × Entry)) (here names : List String),
    names ∈ entryFiles here entries ↔ ∃ rest, FileAt entries rest ∧ names = here ++ rest
  | [], here, names => by
    constructor
    · exact fun h => absurd h List.not_mem_nil
    · rintro ⟨rest, h, -⟩
      obtain ⟨_, _, -, hm⟩ := h.exists_entry
      cases hm
  | (name, e) :: entries, here, names => by
    rw [entryFiles, List.mem_append, mem_files e, mem_entryFiles entries]
    simp only [fileAt_cons]
    constructor
    · rintro ((⟨bytes, he, rfl⟩ | ⟨inner, rest, he, hrest, rfl⟩) | ⟨rest, hrest, rfl⟩)
      · exact ⟨[name], .inl ⟨bytes, he, rfl⟩, rfl⟩
      · exact ⟨name :: rest, .inr (.inl ⟨inner, rest, he, hrest, rfl⟩), by simp⟩
      · exact ⟨rest, .inr (.inr hrest), rfl⟩
    · rintro ⟨_, ⟨bytes, he, rfl⟩ | ⟨inner, rest, he, hrest, rfl⟩ | hrest, rfl⟩
      · exact .inl (.inl ⟨bytes, he, rfl⟩)
      · exact .inl (.inr ⟨inner, rest, he, hrest, by simp⟩)
      · exact .inr ⟨_, hrest, rfl⟩

end

mutual

theorem nodup_files : ∀ (e : Entry) (here : List String),
    (∀ inner, e = .dir inner → WellNamed inner) → (Entry.files here e).Nodup
  | .file bytes, here, _ => by
    simp [Entry.files]
  | .dir inner, here, h => by
    rw [Entry.files]
    exact nodup_entryFiles inner here (h inner rfl)

theorem nodup_entryFiles : ∀ (entries : List (String × Entry)) (here : List String),
    WellNamed entries → (entryFiles here entries).Nodup
  | [], here, _ => by
    simp [entryFiles]
  | (name, e) :: entries, here, .mk hnodup hinner => by
    obtain ⟨hfresh, hrest⟩ := List.nodup_cons.mp hnodup
    have hentries : WellNamed entries :=
      .mk hrest fun other inner hm => hinner other inner (List.mem_cons_of_mem _ hm)
    have hfirst : ∀ inner, e = .dir inner → WellNamed inner := by
      rintro inner rfl
      exact hinner name inner List.mem_cons_self
    rw [entryFiles]
    refine List.nodup_append.mpr
      ⟨nodup_files e _ hfirst, nodup_entryFiles entries here hentries, ?_⟩
    -- the files of the first entry stand behind its name, the others behind other names
    rintro names hmem _ hmem' rfl
    have hstart : ∃ rest, names = here ++ name :: rest := by
      rcases (mem_files e _ _).mp hmem with ⟨_, _, rfl⟩ | ⟨_, rest, _, _, rfl⟩
      · exact ⟨[], rfl⟩
      · exact ⟨rest, by simp⟩
    obtain ⟨rest, rfl⟩ := hstart
    obtain ⟨rest', hat, hsame⟩ := (mem_entryFiles entries here _).mp hmem'
    obtain rfl := List.append_cancel_left hsame
    obtain ⟨_, _, hcons, hkey⟩ := hat.exists_entry
    rw [(List.cons.inj hcons).1] at hfresh
    exact hfresh hkey

end

end Directory

/-! ## Order -/

namespace Path

/-- **Names are in order if they are not behind one another lexicographically.** -/
theorem namesLe_iff : ∀ {a b : List String}, namesLe a b = true ↔ ¬ List.Lex (· < ·) b a
  | [], b => by
    simp [namesLe]
  | a :: as, [] => by
    simp [namesLe]
  | a :: as, b :: bs => by
    rw [namesLe, List.cons_lex_cons_iff]
    split
    · rename_i heq
      rw [namesLe_iff (a := as)]
      simp [heq]
    · rename_i hne
      rw [decide_eq_true_iff, not_or]
      constructor
      · intro hlt
        exact ⟨String.lt_asymm hlt, fun h => hne h.1.symm⟩
      · intro h
        apply Classical.byContradiction
        intro hge
        exact hne (String.le_antisymm h.1 hge)

theorem namesLe_trans (a b c : List String) (hab : namesLe a b = true) (hbc : namesLe b c = true) :
    namesLe a c = true := by
  rw [namesLe_iff] at hab hbc ⊢
  exact List.le_trans hab hbc

theorem namesLe_total (a b : List String) : (namesLe a b || namesLe b a) = true := by
  rw [Bool.or_eq_true, namesLe_iff, namesLe_iff]
  exact List.le_total a b

end Path

namespace Store

theorem isNameOf_iff {type : FileType} {name : String} :
    isNameOf type name = true ↔ ∃ stem, name = stem ++ "." ++ type.name := by
  unfold isNameOf
  rw [List.isSuffixOf_iff_suffix]
  constructor
  · rintro ⟨stem, h⟩
    refine ⟨String.ofList stem, String.toList_injective ?_⟩
    rw [← h]
    simp
  · rintro ⟨stem, rfl⟩
    exact ⟨stem.toList, by simp⟩

/-- **The data files of a type below a directory**: the files at any depth whose names end in a
point and the type, in the order of the names that lead to them. -/
structure DataFiles (entries : Directory) (type : FileType) (listing : List (List String)) :
    Prop where
  mem : ∀ names, names ∈ listing ↔ Directory.FileAt entries names ∧
    ∃ stem, names.getLast? = some (stem ++ "." ++ type.name)
  sorted : listing.Pairwise fun a b => ¬ List.Lex (· < ·) b a
  once : entries.WellNamed → listing.Nodup

theorem dataFiles_filesBelow (entries : Directory) (type : FileType) :
    DataFiles entries type (entries.filesBelow (isNameOf type)) where
  mem names := by
    unfold Directory.filesBelow
    rw [List.mem_mergeSort, List.mem_filter, Directory.mem_entryFiles]
    simp only [List.nil_append, exists_eq_right', isNameOf_iff]
    refine and_congr_right fun hat => ?_
    obtain ⟨name, rest, rfl, -⟩ := hat.exists_entry
    rw [List.getLast?_eq_some_getLast (List.cons_ne_nil name rest)]
    simp
  sorted := by
    have hsorted := List.pairwise_mergeSort Path.namesLe_trans Path.namesLe_total
      ((Directory.entryFiles [] entries).filter fun names => isNameOf type (names.getLast?.getD ""))
    exact hsorted.imp fun h => Path.namesLe_iff.mp h
  once h := by
    have hall := Directory.nodup_entryFiles entries [] h
    unfold Directory.filesBelow
    exact (List.mergeSort_perm _ _).nodup_iff.mpr (hall.filter _)

theorem filesIn_dir {d : Disk} {base : Path} {entries : Directory}
    (h : d.find base = .ok (.dir entries)) (type : FileType) :
    ∃ listing, DataFiles entries type listing ∧
      filesIn d base type = listing.map fun names => (base.join ⟨"", names⟩).text := by
  refine ⟨_, dataFiles_filesBelow entries type, ?_⟩
  unfold filesIn
  rw [h]

theorem filesIn_of_not_dir {d : Disk} {base : Path} (h : d.containsDir base = false)
    (type : FileType) : filesIn d base type = [] := by
  unfold filesIn
  unfold Disk.containsDir at h
  split
  · rename_i hdir
    rw [hdir] at h
    cases h
  · rfl

end Store

end Compliance
