import Compliance.Files.Disk
import Compliance.Proofs.TableFacts

/-! # What is written is read back

A path may go up and down before it comes to its file; what is written is put at the names without
the double dots. Both lead to the same place, and stay on directories that are there.

* `Directory.inner?`, `Directory.way`: a directory by names without double dots, and the directories
  on the way to it.
* `Directory.follow_down`, `Directory.follow_up`: one name. `Directory.follow_kept`: names that lead
  to a directory do so in every tree that has kept its directories, by recursion on them.
* `Directory.overlong_kept`: names that lead to a directory are refused for their lengths alone.
* `Directory.inner?_put`, `Directory.inner?_put_kept`: what putting an entry changes, and that it
  keeps the directories.
* `Disk.readBytes_write`: a file that has been written.
-/

namespace Compliance

namespace Directory

variable {d d' : Directory} {place names : List String} {name : String}

/-! ## Places in a tree -/

/-- The directory at names without double dots. -/
def inner? : Directory → List String → Option Directory
  | d, [] => some d
  | d, name :: names =>
    match d.get? name with
    | some (.dir inner) => inner? inner names
    | _ => none

/-- The directories on the way to a directory, the innermost first. -/
def way : Directory → List String → List Directory
  | d, [] => [d]
  | d, name :: names =>
    match d.get? name with
    | some (.dir inner) => way inner names ++ [d]
    | _ => [d]

/-- Names without double dots, behind a place. -/
def settleFrom (place names : List String) : List String :=
  names.foldl (fun way name => if name = ".." then way.dropLast else way ++ [name]) place

theorem isSome_inner?_nil (d : Directory) : (inner? d []).isSome := rfl

theorem inner?_cons {entries : Directory} : inner? d (name :: names) = some entries ↔
    ∃ inner, d.get? name = some (.dir inner) ∧ inner? inner names = some entries := by
  rw [inner?]
  cases d.get? name with
  | none => simp
  | some e => cases e <;> simp

theorem inner?_concat {entries : Directory} : inner? d (place ++ [name]) = some entries ↔
    ∃ outer, inner? d place = some outer ∧ outer.get? name = some (.dir entries) := by
  induction place generalizing d with
  | nil =>
    rw [List.nil_append, inner?_cons]
    simp [inner?]
  | cons first place ih =>
    rw [List.cons_append, inner?_cons]
    simp only [inner?_cons, ih]
    constructor
    · rintro ⟨inner, hinner, outer, houter, hname⟩
      exact ⟨outer, ⟨inner, hinner, houter⟩, hname⟩
    · rintro ⟨outer, ⟨inner, hinner, houter⟩, hname⟩
      exact ⟨inner, hinner, outer, houter, hname⟩

theorem way_cons {inner : Directory} (h : d.get? name = some (.dir inner)) (names : List String) :
    way d (name :: names) = way inner names ++ [d] := by
  rw [way, h]

theorem way_ne_nil (d : Directory) (place : List String) : way d place ≠ [] := by
  cases place with
  | nil => exact List.cons_ne_nil _ _
  | cons _ _ =>
    rw [way]
    split <;> simp

theorem headD_way {entries : Directory} (h : inner? d place = some entries) :
    (way d place).headD [] = entries := by
  induction place generalizing d with
  | nil => exact Option.some.inj h
  | cons first place ih =>
    obtain ⟨inner, hinner, hplace⟩ := inner?_cons.mp h
    obtain ⟨here, above, hway⟩ := List.exists_cons_of_ne_nil (way_ne_nil inner place)
    rw [way_cons hinner, ← ih hplace, hway]
    rfl

theorem way_concat {entries : Directory} (h : inner? d (place ++ [name]) = some entries) :
    way d (place ++ [name]) = entries :: way d place := by
  induction place generalizing d with
  | nil =>
    obtain ⟨inner, hinner, hsame⟩ := inner?_cons.mp h
    obtain rfl := Option.some.inj hsame
    exact way_cons hinner []
  | cons first place ih =>
    obtain ⟨inner, hinner, hplace⟩ := inner?_cons.mp h
    rw [List.cons_append, way_cons hinner, way_cons hinner, ih hplace, List.cons_append]

/-! ## Following names -/

theorem follow_down (hname : name ≠ "..") (h : (inner? d (place ++ [name])).isSome)
    (names : List String) :
    follow (way d place) (name :: names) = follow (way d (place ++ [name])) names := by
  obtain ⟨entries, hentries⟩ := Option.isSome_iff_exists.mp h
  obtain ⟨outer, houter, hinner⟩ := inner?_concat.mp hentries
  rw [follow, if_neg hname, headD_way houter, hinner, way_concat hentries]

theorem follow_up (h : (inner? d place).isSome) (names : List String) :
    (inner? d place.dropLast).isSome ∧
      follow (way d place) (".." :: names) = follow (way d place.dropLast) names := by
  rw [follow, if_pos rfl]
  rcases List.eq_nil_or_concat place with rfl | ⟨front, last, rfl⟩
  · exact ⟨h, rfl⟩
  · rw [List.concat_eq_append] at h ⊢
    obtain ⟨entries, hentries⟩ := Option.isSome_iff_exists.mp h
    obtain ⟨outer, houter, -⟩ := inner?_concat.mp hentries
    rw [List.dropLast_concat, way_concat hentries, List.tail_cons,
      if_neg (by simpa using way_ne_nil d front)]
    exact ⟨by rw [houter]; rfl, rfl⟩

/-- **Names that lead to a directory** lead to the same place in a tree that has kept its
directories. -/
theorem follow_kept (hkept : ∀ place, (inner? d place).isSome → (inner? d' place).isSome) :
    ∀ {names place : List String} {entries : Directory}, (inner? d place).isSome →
      follow (way d place) names = .ok (.dir entries) →
      inner? d (settleFrom place names) = some entries ∧
      ∀ more, follow (way d' place) (names ++ more) = follow (way d' (settleFrom place names)) more
  | [], place, entries, hplace, h => by
    obtain ⟨here, hhere⟩ := Option.isSome_iff_exists.mp hplace
    rw [follow, headD_way hhere] at h
    obtain rfl := Entry.dir.inj (Except.ok.inj h)
    exact ⟨hhere, fun _ => rfl⟩
  | name :: names, place, entries, hplace, h => by
    by_cases hdots : name = ".."
    · subst hdots
      obtain ⟨hup, hfollow⟩ := follow_up hplace names
      rw [hfollow] at h
      obtain ⟨hend, hmore⟩ := follow_kept hkept hup h
      exact ⟨hend, fun more => (follow_up (hkept _ hplace) _).2.trans (hmore more)⟩
    · -- the name leads to a directory, for more follows or the end is one
      have hdown : (inner? d (place ++ [name])).isSome := by
        obtain ⟨here, hhere⟩ := Option.isSome_iff_exists.mp hplace
        rw [follow, if_neg hdots, headD_way hhere] at h
        split at h
        · cases h
        · rename_i inner hinner
          exact Option.isSome_iff_exists.mpr ⟨inner, inner?_concat.mpr ⟨here, hhere, hinner⟩⟩
        · split at h <;> cases h
      rw [follow_down hdots hdown] at h
      obtain ⟨hend, hmore⟩ := follow_kept hkept hdown h
      have hsettle : settleFrom place (name :: names) = settleFrom (place ++ [name]) names := by
        rw [settleFrom, List.foldl_cons, if_neg hdots]
        rfl
      rw [hsettle]
      exact ⟨hend, fun more => (follow_down hdots (hkept _ hdown) _).trans (hmore more)⟩

/-! ## Names that are too long -/

theorem overlong_down (hname : name ≠ "..") (h : (inner? d (place ++ [name])).isSome)
    (names : List String) : overlong (way d place) (name :: names) =
      (tooLong name || overlong (way d (place ++ [name])) names) := by
  obtain ⟨entries, hentries⟩ := Option.isSome_iff_exists.mp h
  obtain ⟨outer, houter, hinner⟩ := inner?_concat.mp hentries
  rw [overlong, if_neg hname, headD_way houter, hinner, way_concat hentries]

theorem overlong_up (h : (inner? d place).isSome) (names : List String) :
    overlong (way d place) (".." :: names) = overlong (way d place.dropLast) names := by
  rw [overlong, if_pos rfl]
  rcases List.eq_nil_or_concat place with rfl | ⟨front, last, rfl⟩
  · rfl
  · rw [List.concat_eq_append] at h ⊢
    obtain ⟨entries, hentries⟩ := Option.isSome_iff_exists.mp h
    rw [List.dropLast_concat, way_concat hentries, List.tail_cons,
      if_neg (by simpa using way_ne_nil d front)]

/-- **Names that lead to a directory** are refused for their lengths alone, in every tree that has
kept its directories. -/
theorem overlong_kept (hkept : ∀ place, (inner? d place).isSome → (inner? d' place).isSome) :
    ∀ {names place : List String} {entries : Directory}, (inner? d place).isSome →
      follow (way d place) names = .ok (.dir entries) →
      ∀ more, overlong (way d' place) (names ++ more) =
        (names.any tooLong || overlong (way d' (settleFrom place names)) more)
  | [], _, _, _, _, _ => rfl
  | name :: names, place, entries, hplace, h, more => by
    by_cases hdots : name = ".."
    · subst hdots
      obtain ⟨hup, hfollow⟩ := follow_up hplace names
      rw [hfollow] at h
      rw [List.cons_append, overlong_up (hkept _ hplace), overlong_kept hkept hup h more]
      rfl
    · have hdown : (inner? d (place ++ [name])).isSome := by
        obtain ⟨here, hhere⟩ := Option.isSome_iff_exists.mp hplace
        rw [follow, if_neg hdots, headD_way hhere] at h
        split at h
        · cases h
        · rename_i inner hinner
          exact Option.isSome_iff_exists.mpr ⟨inner, inner?_concat.mpr ⟨here, hhere, hinner⟩⟩
        · split at h <;> cases h
      rw [follow_down hdots hdown] at h
      have hsettle : settleFrom place (name :: names) = settleFrom (place ++ [name]) names := by
        rw [settleFrom, List.foldl_cons, if_neg hdots]
        rfl
      rw [List.cons_append, overlong_down hdots (hkept _ hdown), overlong_kept hkept hdown h more,
        hsettle, List.any_cons, Bool.or_assoc]

theorem overlong_last (way : List Directory) (hname : name ≠ "..") :
    overlong way [name] = tooLong name := by
  rw [overlong, if_neg hname]
  cases (way.headD []).get? name with
  | none => exact Bool.or_false _
  | some e => cases e <;> exact Bool.or_false _

theorem follow_file {bytes : ByteArray} : ∀ {names : List String} {way : List Directory},
    follow way names = .ok (.file bytes) →
    ∃ (front : List String) (last : String) (entries : Directory), names = front ++ [last] ∧
      last ≠ ".." ∧ follow way front = .ok (.dir entries) ∧
      entries.get? last = some (.file bytes)
  | [], _, h => by cases h
  | name :: names, way, h => by
    rw [follow] at h
    split at h
    · rename_i hdots
      obtain ⟨front, last, entries, rfl, hlast, hfront, hfile⟩ := follow_file h
      exact ⟨name :: front, last, entries, rfl, hlast, by rw [follow, if_pos hdots, hfront], hfile⟩
    · rename_i hdots
      split at h
      · cases h
      · rename_i inner hinner
        obtain ⟨front, last, entries, rfl, hlast, hfront, hfile⟩ := follow_file h
        refine ⟨name :: front, last, entries, rfl, hlast, ?_, hfile⟩
        rw [follow, if_neg hdots, hinner]
        exact hfront
      · rename_i found hfound
        split at h
        · rename_i hempty
          obtain rfl := List.isEmpty_iff.mp hempty
          obtain rfl := Entry.file.inj (Except.ok.inj h)
          exact ⟨[], name, _, rfl, hdots, rfl, hfound⟩
        · cases h

/-! ## Putting an entry -/

theorem put_cons (e : Entry) (d : Directory) (name : String) (h : names ≠ []) :
    put e d (name :: names) = d.insert name (.dir (put e (match d.get? name with
      | some (.dir inner) => inner
      | _ => []) names)) := by
  obtain ⟨next, rest, rfl⟩ := List.exists_cons_of_ne_nil h
  rw [put]
  cases d.get? name with
  | none => rfl
  | some e => cases e <;> rfl

theorem inner?_put {outer : Directory} (e : Entry) (h : inner? d place = some outer)
    (name : String) : inner? (put e d (place ++ [name])) place = some (outer.insert name e) := by
  induction place generalizing d with
  | nil =>
    obtain rfl := Option.some.inj h
    rfl
  | cons first place ih =>
    obtain ⟨inner, hinner, hplace⟩ := inner?_cons.mp h
    rw [List.cons_append, put_cons e d first (by simp), hinner]
    refine inner?_cons.mpr ⟨_, ?_, ih hplace⟩
    rw [Table.get?_insert, if_pos BEq.rfl]

/-- **Putting an entry in the place of no directory** keeps all directories. -/
theorem inner?_put_kept {outer : Directory} (e : Entry) (h : inner? d place = some outer)
    (hname : ∀ entries, outer.get? name ≠ some (.dir entries)) (other : List String)
    (hother : (inner? d other).isSome) : (inner? (put e d (place ++ [name])) other).isSome := by
  induction place generalizing d other with
  | nil =>
    obtain rfl := Option.some.inj h
    cases other with
    | nil => rfl
    | cons first other =>
      obtain ⟨entries, hentries⟩ := Option.isSome_iff_exists.mp hother
      obtain ⟨inner, hinner, hrest⟩ := inner?_cons.mp hentries
      have hne : (name == first) = false :=
        Bool.eq_false_iff.mpr fun hsame => hname inner (eq_of_beq hsame ▸ hinner)
      refine Option.isSome_iff_exists.mpr ⟨entries, inner?_cons.mpr ⟨inner, ?_, hrest⟩⟩
      rw [List.nil_append, put, Table.get?_insert, hne]
      exact hinner
  | cons first place ih =>
    obtain ⟨inner, hinner, hplace⟩ := inner?_cons.mp h
    rw [List.cons_append, put_cons e d first (by simp), hinner]
    cases other with
    | nil => rfl
    | cons next other =>
      obtain ⟨entries, hentries⟩ := Option.isSome_iff_exists.mp hother
      obtain ⟨below, hbelow, hrest⟩ := inner?_cons.mp hentries
      by_cases hsame : first = next
      · subst hsame
        obtain rfl := Entry.dir.inj (Option.some.inj (hinner.symm.trans hbelow))
        obtain ⟨kept, hkept⟩ := Option.isSome_iff_exists.mp
          (ih hplace other (by rw [hrest]; rfl))
        refine Option.isSome_iff_exists.mpr ⟨kept, inner?_cons.mpr ⟨_, ?_, hkept⟩⟩
        rw [Table.get?_insert, if_pos BEq.rfl]
      · refine Option.isSome_iff_exists.mpr ⟨entries, inner?_cons.mpr ⟨below, ?_, hrest⟩⟩
        rw [Table.get?_insert, if_neg (by simpa using hsame)]
        exact hbelow

end Directory

namespace Disk

open Directory

/-- What is written takes the place of no directory, in a directory that is there. -/
theorem write_cases {d after : Disk} {p : Path} {bytes : ByteArray}
    (h : d.write p bytes = .ok after) : d.refuses p = false ∧ after = d.putAt p (.file bytes) ∧
    ∃ (front : List String) (last : String) (outer : Directory), d.full p = front ++ [last] ∧
      last ≠ ".." ∧ follow [d.root] front = .ok (.dir outer) ∧
      ∀ entries, outer.get? last ≠ some (.dir entries) := by
  unfold write at h
  split at h
  · cases h
  rename_i hopen
  have hopen : d.refuses p = false := by simpa using hopen
  split at h
  · cases h
  · rename_i old hfind
    obtain ⟨front, last, outer, hfull, hlast, hfront, hfile⟩ := follow_file hfind
    refine ⟨hopen, (Except.ok.inj h).symm, front, last, outer, hfull, hlast, hfront, ?_⟩
    intro entries hdir
    rw [hfile] at hdir
    cases hdir
  · rename_i hfind
    split at h
    · rename_i outer hparent
      have hafter := (Except.ok.inj h).symm
      rcases List.eq_nil_or_concat p.names with hnil | ⟨names, last, hnames⟩
      · -- a path without names is its own parent
        have hsame : p.parent = p := by
          rw [Path.parent, hnil, List.dropLast_nil, ← hnil]
        rw [hsame, hfind] at hparent
        cases hparent
      rw [List.concat_eq_append] at hnames
      have hfull : d.full p = d.full p.parent ++ [last] := by
        unfold full Path.parent
        rw [hnames, List.dropLast_concat]
        split <;> simp
      obtain ⟨hinner, hmore⟩ := follow_kept (fun _ h => h) (isSome_inner?_nil d.root) hparent
      have hstep : follow (way d.root (settleFrom [] (d.full p.parent))) [last] =
          .error .notFound := (hmore [last]).symm.trans (hfull ▸ hfind)
      have hsome : (inner? d.root (settleFrom [] (d.full p.parent))).isSome := by rw [hinner]; rfl
      have hlast : last ≠ ".." := by
        rintro rfl
        rw [(follow_up hsome []).2] at hstep
        cases hstep
      refine ⟨hopen, hafter, _, last, outer, hfull, hlast, hparent, fun entries hdir => ?_⟩
      rw [follow, if_neg hlast, headD_way hinner, hdir] at hstep
      cases hstep
    · cases h
    · cases h
  · cases h

/-- **A file that has been written is read back.** -/
theorem readBytes_write {d after : Disk} {p : Path} {bytes : ByteArray}
    (h : d.write p bytes = .ok after) : after.readBytes p = .ok bytes := by
  obtain ⟨hopen, rfl, front, last, outer, hfull, hlast, hfront, hname⟩ := write_cases h
  -- the entry is put where the names lead
  have hsettle : settle (d.full p) = settleFrom [] front ++ [last] := by
    rw [hfull, settle, List.foldl_append, List.foldl_cons, if_neg hlast]
    rfl
  -- the names before the last lead to the same place before and after
  have hinner : inner? d.root (settleFrom [] front) = some outer :=
    (follow_kept (fun _ h => h) (isSome_inner?_nil d.root) hfront).1
  have hkept := inner?_put_kept (.file bytes) hinner hname
  obtain ⟨-, hmore⟩ := follow_kept hkept (isSome_inner?_nil d.root) hfront
  have hfind : (d.putAt p (.file bytes)).find p = .ok (.file bytes) := by
    show follow [put (.file bytes) d.root (settle (d.full p))] (d.full p) = _
    rw [hsettle, hfull]
    refine (hmore [last]).trans ?_
    rw [follow, if_neg hlast, headD_way (inner?_put (.file bytes) hinner last),
      Table.get?_insert, if_pos BEq.rfl]
    rfl
  have hrefused : (d.putAt p (.file bytes)).refuses p = d.refuses p := by
    have hover : ∀ {d' : Directory},
        (∀ place, (inner? d.root place).isSome → (inner? d' place).isSome) →
        overlong [d'] (d.full p) = (front.any tooLong || tooLong last) := fun hkept => by
      rw [hfull, ← overlong_last (way _ (settleFrom [] front)) hlast]
      exact overlong_kept hkept (isSome_inner?_nil d.root) hfront [last]
    have hput : overlong [(d.putAt p (.file bytes)).root] ((d.putAt p (.file bytes)).full p) =
        overlong [put (.file bytes) d.root (settleFrom [] front ++ [last])] (d.full p) := by
      rw [← hsettle]
      rfl
    rw [refuses, refuses, hput, hover hkept, hover fun _ h => h]
  unfold readBytes
  rw [hfind, hrefused, hopen]
  rfl

end Disk

end Compliance
