import Compliance.Proofs.WrittenFiles

/-! # Directories that are made

The directories of a path are made before its file is written. Making them adds directories that are
empty: what was there stays, and no file comes, goes or changes.

* `Directory.bytesAt?`: the file at names without double dots. `Directory.bytesAt?_put`: a new
  directory does not touch it.
* `Disk.Grows`: nothing but directories has been added. `Disk.grows_putAt`: one directory;
  `Disk.grows_makeFrom`: the directories of a path, by induction on its names.
* `Disk.Writable`: a file can be written there. `Disk.Writable.makeAll`: its directories are made,
  and all that is left is to write it; until then the disk is `Disk.Untouched`.
-/

namespace Compliance

namespace Directory

variable {d : Directory} {place : List String} {name : String}

/-- The bytes of the file at names without double dots. -/
def bytesAt? : Directory → List String → Option ByteArray
  | _, [] => none
  | d, name :: names =>
    match d.get? name with
    | some (.dir inner) => bytesAt? inner names
    | some (.file bytes) => if names.isEmpty then some bytes else none
    | none => none

theorem bytesAt?_down {inner : Directory} (h : d.get? name = some (.dir inner))
    (names : List String) : bytesAt? d (name :: names) = bytesAt? inner names := by
  rw [bytesAt?, h]

theorem bytesAt?_concat {outer : Directory} (h : inner? d place = some outer) (name : String) :
    bytesAt? d (place ++ [name]) = bytesAt? outer [name] := by
  induction place generalizing d with
  | nil =>
    obtain rfl := Option.some.inj h
    rfl
  | cons first place ih =>
    obtain ⟨inner, hinner, hplace⟩ := inner?_cons.mp h
    rw [List.cons_append, bytesAt?_down hinner, ih hplace]

/-- **A directory in the place of nothing** does not touch a file. -/
theorem bytesAt?_put {outer : Directory} (h : inner? d place = some outer)
    (hname : outer.get? name = none) (other : List String) :
    bytesAt? (put (.dir []) d (place ++ [name])) other = bytesAt? d other := by
  induction place generalizing d other with
  | nil =>
    obtain rfl := Option.some.inj h
    cases other with
    | nil => rfl
    | cons next other =>
      rw [List.nil_append, put, bytesAt?, bytesAt?, Table.get?_insert]
      by_cases hsame : name = next
      · subst hsame
        rw [if_pos BEq.rfl, hname]
        cases other <;> rfl
      · rw [if_neg (by simpa using hsame)]
  | cons first place ih =>
    obtain ⟨inner, hinner, hplace⟩ := inner?_cons.mp h
    rw [List.cons_append, put_cons _ d first (by simp), hinner]
    cases other with
    | nil => rfl
    | cons next other =>
      by_cases hsame : first = next
      · subst hsame
        rw [bytesAt?_down hinner, ← ih hplace other]
        exact bytesAt?_down (by rw [Table.get?_insert, if_pos BEq.rfl]) other
      · rw [bytesAt?, bytesAt?, Table.get?_insert, if_neg (by simpa using hsame)]

end Directory

namespace Disk

open Directory

theorem full_concat (d : Disk) (root : String) (names : List String) (name : String) :
    d.full ⟨root, names ++ [name]⟩ = d.full ⟨root, names⟩ ++ [name] := by
  unfold full
  split
  · exact (List.append_assoc _ _ _).symm
  · rfl

theorem settle_concat (names : List String) {name : String} (h : name ≠ "..") :
    settle (names ++ [name]) = settle names ++ [name] := by
  rw [settle, List.foldl_append, List.foldl_cons, if_neg h]
  rfl

theorem find_dir {d : Disk} {p : Path} {entries : Directory} (h : d.find p = .ok (.dir entries)) :
    inner? d.root (settle (d.full p)) = some entries ∧
      ∀ more, follow [d.root] (d.full p ++ more) =
        follow (way d.root (settle (d.full p))) more :=
  follow_kept (fun _ h => h) (isSome_inner?_nil d.root) h

theorem find_concat {d : Disk} {root name : String} {names : List String} {outer : Directory}
    (h : d.find ⟨root, names⟩ = .ok (.dir outer)) (hname : name ≠ "..") :
    d.find ⟨root, names ++ [name]⟩ =
      match outer.get? name with
      | none => .error .notFound
      | some e => .ok e := by
  obtain ⟨hinner, hmore⟩ := find_dir h
  rw [find, full_concat, hmore, follow, if_neg hname, headD_way hinner]
  cases outer.get? name with
  | none => rfl
  | some e => cases e <;> rfl

theorem find_concat_up {d : Disk} {root : String} {names : List String} {outer : Directory}
    (h : d.find ⟨root, names⟩ = .ok (.dir outer)) :
    ∃ entries, d.find ⟨root, names ++ [".."]⟩ = .ok (.dir entries) := by
  obtain ⟨hinner, hmore⟩ := find_dir h
  have hplace : (inner? d.root (settle (d.full ⟨root, names⟩))).isSome := by
    rw [hinner]
    rfl
  obtain ⟨hup, hfollow⟩ := follow_up hplace []
  obtain ⟨entries, hentries⟩ := Option.isSome_iff_exists.mp hup
  refine ⟨entries, ?_⟩
  rw [find, full_concat, hmore, hfollow, follow, headD_way hentries]

theorem containsDir_iff {d : Disk} {p : Path} :
    d.containsDir p = true ↔ ∃ entries, d.find p = .ok (.dir entries) := by
  unfold containsDir
  split
  · rename_i entries hfind
    exact iff_of_true rfl ⟨entries, hfind⟩
  · rename_i hother
    exact iff_of_false Bool.false_ne_true fun ⟨entries, hfind⟩ => hother entries hfind

/-! ## What making directories does -/

/-- Nothing but directories has been added to a disk. -/
structure Grows (before after : Disk) : Prop where
  place : after.place = before.place
  dirs : ∀ names, (inner? before.root names).isSome → (inner? after.root names).isSome
  files : ∀ names, bytesAt? after.root names = bytesAt? before.root names

theorem Grows.refl (d : Disk) : Grows d d := ⟨rfl, fun _ h => h, fun _ => rfl⟩

theorem Grows.trans {d d' d'' : Disk} (h : Grows d d') (h' : Grows d' d'') : Grows d d'' where
  place := h'.place.trans h.place
  dirs := fun names hnames => h'.dirs names (h.dirs names hnames)
  files := fun names => (h'.files names).trans (h.files names)

theorem free_of_notFound {d : Disk} {root name : String} {names : List String} {outer : Directory}
    (hfront : d.find ⟨root, names⟩ = .ok (.dir outer))
    (hfree : d.find ⟨root, names ++ [name]⟩ = .error .notFound) :
    name ≠ ".." ∧ outer.get? name = none := by
  have hname : name ≠ ".." := by
    rintro rfl
    obtain ⟨entries, hup⟩ := find_concat_up hfront
    cases hfree.symm.trans hup
  rw [find_concat hfront hname] at hfree
  cases hget : outer.get? name with
  | none => exact ⟨hname, rfl⟩
  | some e =>
    rw [hget] at hfree
    cases hfree

/-- **One directory is made** behind one that is there. -/
theorem grows_putAt {d : Disk} {root name : String} {names : List String} {outer : Directory}
    (hfront : d.find ⟨root, names⟩ = .ok (.dir outer))
    (hfree : d.find ⟨root, names ++ [name]⟩ = .error .notFound) :
    Grows d (d.putAt ⟨root, names ++ [name]⟩ (.dir [])) ∧
      (d.putAt ⟨root, names ++ [name]⟩ (.dir [])).find ⟨root, names ++ [name]⟩ = .ok (.dir []) := by
  obtain ⟨hname, hnone⟩ := free_of_notFound hfront hfree
  obtain ⟨hinner, -⟩ := find_dir hfront
  have hkept : ∀ other, (inner? d.root other).isSome → (inner? (put (.dir []) d.root
      (settle (d.full ⟨root, names⟩) ++ [name])) other).isSome :=
    inner?_put_kept (.dir []) hinner fun entries hdir => by
      rw [hnone] at hdir
      cases hdir
  have hmore : ∀ more, follow [put (.dir []) d.root (settle (d.full ⟨root, names⟩) ++ [name])]
      (d.full ⟨root, names⟩ ++ more) =
        follow (way (put (.dir []) d.root (settle (d.full ⟨root, names⟩) ++ [name]))
          (settle (d.full ⟨root, names⟩))) more :=
    (follow_kept hkept (isSome_inner?_nil d.root) hfront).2
  have hput : (d.putAt ⟨root, names ++ [name]⟩ (.dir [])).root =
      put (.dir []) d.root (settle (d.full ⟨root, names⟩) ++ [name]) := by
    rw [putAt, full_concat, settle_concat _ hname]
  refine ⟨⟨rfl, ?_, ?_⟩, ?_⟩
  · rw [hput]
    exact hkept
  · rw [hput]
    exact bytesAt?_put hinner hnone
  · have hfull : (d.putAt ⟨root, names ++ [name]⟩ (.dir [])).full ⟨root, names ++ [name]⟩ =
        d.full ⟨root, names⟩ ++ [name] := full_concat d root names name
    rw [find, hput, hfull, hmore, follow, if_neg hname, headD_way (inner?_put _ hinner name),
      Table.get?_insert, if_pos BEq.rfl]
    rfl

/-- **The directories of a path are made**, and nothing else is. -/
theorem grows_makeFrom {d made : Disk} {root : String} {done names : List String}
    (hdone : d.containsDir ⟨root, done⟩ = true) (h : makeFrom d root done names = .ok made) :
    Grows d made ∧ made.containsDir ⟨root, done ++ names⟩ = true := by
  induction names generalizing d done with
  | nil =>
    obtain rfl := Except.ok.inj h
    rw [List.append_nil]
    exact ⟨.refl d, hdone⟩
  | cons name names ih =>
    rw [makeFrom] at h
    have happend : done ++ name :: names = (done ++ [name]) ++ names := by simp
    rw [happend]
    split at h
    · cases h
    split at h
    · rename_i hhere
      exact ih (by rw [containsDir, hhere]) h
    · cases h
    · rename_i hfree
      obtain ⟨outer, hfront⟩ := containsDir_iff.mp hdone
      obtain ⟨hgrows, hhere⟩ := grows_putAt hfront hfree
      obtain ⟨hmore, hdir⟩ := ih (by rw [containsDir, hhere]) h
      exact ⟨hgrows.trans hmore, hdir⟩
    · cases h

/-! ## Where a file can be written -/

/-- The bytes of the file at the place that a path leads to. -/
def fileAt? (d : Disk) (p : Path) : Option ByteArray := bytesAt? d.root (settle (d.full p))

/-- A file can be written at the path: the directory that the path starts from is there, those on
the way can be made, and then the path neither leads to a directory itself nor is refused. -/
structure Writable (d : Disk) (p : Path) : Prop where
  start : d.containsDir ⟨p.root, []⟩ = true
  made : ∃ made, d.makeAll p.parent = .ok made ∧ made.containsDir p = false ∧
    made.refuses p = false

theorem Grows.fileAt? {before after : Disk} (h : Grows before after) (p : Path) :
    after.fileAt? p = before.fileAt? p := by
  have hfull : after.full p = before.full p := by
    unfold full
    rw [h.place]
  rw [Disk.fileAt?, hfull, h.files]
  rfl

/-- A path in a directory that leads to none itself ends with a name there, which leads to a file or
is free. -/
theorem exists_last {d : Disk} {p : Path} (hparent : d.containsDir p.parent = true)
    (hpath : d.containsDir p = false) :
    ∃ (place : List String) (last : String) (outer : Directory),
      settle (d.full p) = place ++ [last] ∧ inner? d.root place = some outer ∧
      (outer.get? last = none ∧ d.find p = .error .notFound ∨
        ∃ bytes, outer.get? last = some (.file bytes) ∧ d.find p = .ok (.file bytes)) := by
  obtain ⟨root, names⟩ := p
  obtain ⟨outer, houter⟩ := containsDir_iff.mp hparent
  have hnone : ∀ entries, d.find ⟨root, names⟩ ≠ .ok (.dir entries) := fun entries hfind => by
    rw [containsDir_iff.mpr ⟨entries, hfind⟩] at hpath
    cases hpath
  rcases List.eq_nil_or_concat names with rfl | ⟨front, last, rfl⟩
  · exact absurd houter (hnone outer)
  · rw [List.concat_eq_append] at hnone ⊢
    rw [Path.parent, List.concat_eq_append, List.dropLast_concat] at houter
    have hlast : last ≠ ".." := by
      rintro rfl
      obtain ⟨entries, hup⟩ := find_concat_up houter
      exact hnone entries hup
    refine ⟨_, last, outer, by rw [full_concat, settle_concat _ hlast], (find_dir houter).1, ?_⟩
    have hfind := find_concat houter hlast
    cases hget : Table.get? outer last with
    | none =>
      rw [hget] at hfind
      exact .inl ⟨rfl, hfind⟩
    | some e =>
      rw [hget] at hfind
      cases e with
      | file bytes => exact .inr ⟨bytes, rfl, hfind⟩
      | dir entries => exact absurd hfind (hnone entries)

/-- **A file can be written in a directory that is there**, where there is no directory. -/
theorem write_of_parent {d : Disk} {p : Path} (hparent : d.containsDir p.parent = true)
    (hpath : d.containsDir p = false) (hopen : d.refuses p = false) (bytes : ByteArray) :
    d.write p bytes = .ok (d.putAt p (.file bytes)) := by
  obtain ⟨entries, hdir⟩ := containsDir_iff.mp hparent
  unfold write
  rw [hopen, if_neg Bool.false_ne_true]
  obtain ⟨_, _, _, -, -, ⟨-, hfind⟩ | ⟨old, -, hfind⟩⟩ := exists_last hparent hpath
  · rw [hfind, hdir]
  · rw [hfind]

theorem toOption_readBytes {d : Disk} {p : Path} (hparent : d.containsDir p.parent = true)
    (hpath : d.containsDir p = false) (hopen : d.refuses p = false) :
    (d.readBytes p).toOption = d.fileAt? p := by
  obtain ⟨place, last, outer, hplace, hinner, hlast⟩ := exists_last hparent hpath
  have hfile : d.fileAt? p = bytesAt? outer [last] := by
    rw [fileAt?, hplace, bytesAt?_concat hinner]
  rw [hfile, readBytes, hopen, if_neg Bool.false_ne_true, bytesAt?]
  rcases hlast with ⟨hget, hfind⟩ | ⟨bytes, hget, hfind⟩
  · rw [hget, hfind]
    rfl
  · rw [hget, hfind]
    rfl

theorem fileAt?_of_readBytes {d : Disk} {p : Path} {bytes : ByteArray}
    (h : d.readBytes p = .ok bytes) : d.fileAt? p = some bytes := by
  have hfind : d.find p = .ok (.file bytes) := by
    unfold readBytes at h
    split at h
    · cases h
    split at h
    · rename_i hfind
      rw [hfind, Except.ok.inj h]
    · cases h
    · cases h
  obtain ⟨front, last, outer, hfull, hlast, hfront, hfile⟩ := follow_file hfind
  obtain ⟨hinner, -⟩ := follow_kept (fun _ h => h) (isSome_inner?_nil d.root) hfront
  rw [fileAt?, hfull, settle_concat _ hlast]
  exact (bytesAt?_concat hinner last).trans (by rw [bytesAt?, hfile]; rfl)

/-- No file has been touched; the one at the path, if there is one, reads as it did. -/
structure Untouched (before after : Disk) (p : Path) : Prop where
  files : ∀ names, bytesAt? after.root names = bytesAt? before.root names
  content : ∀ bytes, before.readBytes p = .ok bytes → after.readBytes p = .ok bytes
  missing : before.fileAt? p = none → ∀ bytes, after.readBytes p ≠ .ok bytes

/-- **Where a file can be written, the directories of its path are made** without touching a file,
and all that is left is to write it. -/
theorem Writable.makeAll {d : Disk} {p : Path} (h : d.Writable p) :
    ∃ made, d.makeAll p.parent = .ok made ∧ Untouched d made p ∧
      ∀ bytes, made.write p bytes = .ok (made.putAt p (.file bytes)) := by
  obtain ⟨made, hmade, hpath, hopen⟩ := h.made
  obtain ⟨hgrows, hparent⟩ : Grows d made ∧ made.containsDir p.parent = true := by
    unfold Disk.makeAll at hmade
    split at hmade
    · cases hmade
    · exact grows_makeFrom h.start hmade
  have hread : (made.readBytes p).toOption = d.fileAt? p :=
    (toOption_readBytes hparent hpath hopen).trans (hgrows.fileAt? p)
  refine ⟨made, hmade, ⟨hgrows.files, fun bytes hbytes => ?_, fun hnone bytes hbytes => ?_⟩,
    write_of_parent hparent hpath hopen⟩
  · rw [fileAt?_of_readBytes hbytes] at hread
    cases hmadeRead : made.readBytes p with
    | error e =>
      rw [hmadeRead] at hread
      cases hread
    | ok found =>
      rw [hmadeRead] at hread
      rw [Option.some.inj hread]
  · rw [hnone, hbytes] at hread
    cases hread

end Disk

end Compliance
