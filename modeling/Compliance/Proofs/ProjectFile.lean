import Compliance.Config
import Compliance.Proofs.EncodedText

/-! # Which project files stop a run

A project file may be missing, hold no text, no YAML or no mapping. Most of this leaves the defaults
and what the caller overrides; bytes that are no text, values that cannot be made, and a path that
is too long for the system end the run.

* `Config.HasText`, `Config.HasRoot`: what a project file holds, by the encoding of texts.
* `Config.Stops`: the files that end a run.
* `Config.load_of_text`, `Config.load_undecodable`: one file.
* `Config.load_reads`: every file gives the mapping at its root, or nothing, or ends the run.
-/

namespace Compliance.Config

/-- The file that the configuration of a project is read from. -/
def place (project : Path) (named : Option Path) : Path :=
  named.getD (project.join (Path.ofText ".scelint.yaml"))

/-- The bytes encode a text. It is read without a byte order mark in front, and every line of it
ends in a line feed. -/
def HasText (bytes : ByteArray) (text : List Char) : Prop :=
  ∃ s : String, bytes = s.toUTF8 ∧ text = Text.unifyLines (Text.dropMark s.toList)

/-- The file holds a text with this value. -/
def HasRoot (d : Disk) (file : Path) (root : Tree) : Prop :=
  ∃ bytes text, d.readBytes file = .ok bytes ∧ HasText bytes text ∧ Yaml.outline text = .ok root

/-- The file ends a run: it holds no text, or a text of the form of YAML with a value that cannot be
made, or its path is one that the system refuses. -/
inductive Stops (d : Disk) (file : Path) : Prop where
  | undecodable {bytes : ByteArray} (hbytes : d.readBytes file = .ok bytes)
    (htext : ∀ text, ¬ HasText bytes text) (hmark : ¬ Utf8.BreaksOff bytes)
  | value {bytes : ByteArray} {text : List Char} {fault : Yaml.Fault}
    (hbytes : d.readBytes file = .ok bytes) (htext : HasText bytes text)
    (hread : Yaml.outline text = .error fault) (hfault : fault ≠ .malformed)
  | refused (hrefused : d.refuses file = true)

variable {d : Disk} {project : Path} {named : Option Path} {bytes : ByteArray} {text : List Char}

/-! ## One file -/

theorem hasText_iff : HasText bytes text ↔ ¬ Utf8.BreaksOff bytes ∧
    ∃ cs, Utf8.decodeMarked bytes.toList = .ok cs ∧ text = Text.unifyLines cs := by
  constructor
  · rintro ⟨s, rfl, rfl⟩
    exact ⟨Utf8.not_breaksOff_toUTF8 s, _, Utf8.decodeMarked_eq_ok.mpr (.inl ⟨s, rfl, rfl⟩), rfl⟩
  · rintro ⟨hmark, cs, hcs, rfl⟩
    obtain ⟨s, hs, rfl⟩ | ⟨hoff, -⟩ := Utf8.decodeMarked_eq_ok.mp hcs
    · exact ⟨s, hs, rfl⟩
    · exact absurd hoff hmark

section
variable (hbytes : d.readBytes (place project named) = .ok bytes)
include hbytes

theorem load_of_file : load d project named =
    match Utf8.decodeMarked bytes.toList with
    | .error fault => .error (.text fault)
    | .ok cs => ofText (Text.unifyLines cs) := by
  unfold place at hbytes
  unfold load loadFrom fileName
  cases hmarked : Utf8.decodeMarked bytes.toList with
  | error fault => simp only [hbytes, hmarked]
  | ok cs => simp only [hbytes, hmarked]

theorem load_of_text (htext : HasText bytes text) : load d project named = ofText text := by
  obtain ⟨-, cs, hcs, rfl⟩ := hasText_iff.mp htext
  rw [load_of_file hbytes, hcs]

theorem load_of_breaksOff (hmark : Utf8.BreaksOff bytes) : load d project named = .ok [] := by
  have hnull : Yaml.outline (Text.unifyLines []) = .ok .null := by cbv
  rw [load_of_file hbytes, Utf8.decodeMarked_eq_ok.mpr (.inr ⟨hmark, rfl⟩)]
  dsimp only
  rw [ofText, hnull]
  rfl

theorem load_undecodable (htext : ∀ text, ¬ HasText bytes text) (hmark : ¬ Utf8.BreaksOff bytes) :
    ∃ fault, load d project named = .error (.text fault) := by
  rw [load_of_file hbytes]
  cases hdecode : Utf8.decodeMarked bytes.toList with
  | error fault => exact ⟨fault, rfl⟩
  | ok cs => exact absurd (hasText_iff.mpr ⟨hmark, cs, hdecode, rfl⟩) (htext _)

end

/-- Only a path that is refused gives this fault: following names never does. -/
theorem follow_ne_tooLong (names : List String) : ∀ way : List Directory,
    Directory.follow way names ≠ .error .nameTooLong := by
  induction names with
  | nil => exact fun way h => nomatch h
  | cons name names ih =>
    intro way h
    rw [Directory.follow] at h
    split at h
    · exact ih _ h
    split at h
    · cases h
    · exact ih _ h
    · split at h <;> cases h

theorem readBytes_refused {file : Path} :
    d.readBytes file = .error .nameTooLong ↔ d.refuses file = true := by
  unfold Disk.readBytes
  split
  · rename_i hrefused
    exact iff_of_true rfl hrefused
  · rename_i hopen
    refine iff_of_false (fun h => ?_) hopen
    split at h
    · cases h
    · cases h
    · rename_i fault hfind
      obtain rfl := Except.error.inj h
      exact follow_ne_tooLong _ _ hfind

theorem load_of_refused (h : d.refuses (place project named) = true) :
    ∃ fault, load d project named = .error fault := by
  have hbytes := readBytes_refused.mpr h
  unfold place at hbytes
  unfold load loadFrom fileName
  rw [hbytes]
  exact ⟨_, rfl⟩

theorem load_of_no_file (hnone : ∀ bytes, d.readBytes (place project named) ≠ .ok bytes)
    (hopen : d.refuses (place project named) = false) : load d project named = .ok [] := by
  cases hfault : d.readBytes (place project named) with
  | ok bytes => exact absurd hfault (hnone bytes)
  | error fault =>
    have hne : fault ≠ .nameTooLong := by
      rintro rfl
      rw [readBytes_refused.mp hfault] at hopen
      cases hopen
    unfold place at hfault
    unfold load loadFrom fileName
    rw [hfault]
    cases fault with
    | nameTooLong => exact absurd rfl hne
    | _ => rfl

/-! ## One text -/

theorem ofText_of_map {m : Mapping} (hread : Yaml.outline text = .ok (.map m)) :
    ofText text = .ok m := by
  rw [ofText, hread]
  rfl

theorem ofText_of_other (hroot : ∀ m, Yaml.outline text ≠ .ok (.map m))
    (hform : ∀ fault, Yaml.outline text = .error fault → fault = .malformed) :
    ofText text = .ok [] := by
  unfold ofText
  cases hread : Yaml.outline text with
  | error fault => rw [hform fault hread]
  | ok root =>
    cases root with
    | map m => exact absurd hread (hroot m)
    | scalar s => rfl
    | seq items => rfl

theorem ofText_of_fault {fault : Yaml.Fault} (hread : Yaml.outline text = .error fault)
    (hfault : fault ≠ .malformed) : ofText text = .error (.value fault) := by
  rw [ofText, hread]
  cases fault with
  | malformed => exact absurd rfl hfault
  | _ => rfl

/-! ## Every file -/

theorem effective_of_load {m overrides : Mapping} (h : load d project named = .ok m) :
    effective d project named overrides = .ok (layered m overrides) := by
  unfold effective
  rw [h]
  rfl

theorem load_eq_nil (hroot : ∀ m, ¬ HasRoot d (place project named) (.map m))
    (hgoes : ¬ Stops d (place project named)) : load d project named = .ok [] := by
  by_cases hfile : ∃ bytes, d.readBytes (place project named) = .ok bytes
  · obtain ⟨bytes, hbytes⟩ := hfile
    by_cases htext : ∃ text, HasText bytes text
    · obtain ⟨text, htext⟩ := htext
      rw [load_of_text hbytes htext]
      refine ofText_of_other (fun m hread => ?_) (fun fault hread => ?_)
      · exact hroot m ⟨bytes, text, hbytes, htext, hread⟩
      · by_contra hfault
        exact hgoes (.value hbytes htext hread hfault)
    · by_cases hmark : Utf8.BreaksOff bytes
      · exact load_of_breaksOff hbytes hmark
      · exact absurd (.undecodable hbytes (not_exists.mp htext) hmark) hgoes
  · exact load_of_no_file (not_exists.mp hfile)
      (Bool.eq_false_iff.mpr fun hrefused => hgoes (.refused hrefused))

theorem load_of_stops (h : Stops d (place project named)) :
    ∃ fault, load d project named = .error fault := by
  cases h with
  | undecodable hbytes htext hmark =>
    obtain ⟨fault, hfault⟩ := load_undecodable hbytes htext hmark
    exact ⟨.text fault, hfault⟩
  | @value bytes text fault hbytes htext hread hfault =>
    refine ⟨.value fault, ?_⟩
    rw [load_of_text hbytes htext, ofText_of_fault hread hfault]
  | refused hrefused => exact load_of_refused hrefused

/-- **A project file gives the mapping at its root.** Every other file, and a directory in its
place, leaves the defaults under what the caller overrides, unless it stops the run: only bytes that
are no text, values that cannot be made, and a path that the system refuses do. -/
theorem load_reads (d : Disk) (project : Path) (named : Option Path) (overrides : Mapping) :
    let file := place project named
    (∀ m, HasRoot d file (.map m) → load d project named = .ok m ∧
      effective d project named overrides =
        .ok (deepMerge .replace (deepMerge .replace defaults m) overrides)) ∧
    ((∀ m, ¬ HasRoot d file (.map m)) → ¬ Stops d file → load d project named = .ok [] ∧
      effective d project named overrides = .ok (deepMerge .replace defaults overrides)) ∧
    (Stops d file ↔ ∃ fault, load d project named = .error fault ∧
      effective d project named overrides = .error fault) := by
  intro file
  have hfound : ∀ m, HasRoot d file (.map m) → load d project named = .ok m := by
    rintro m ⟨bytes, text, hbytes, htext, hread⟩
    rw [load_of_text hbytes htext, ofText_of_map hread]
  refine ⟨fun m hroot => ?_, fun hroot hgoes => ?_, fun hstops => ?_, ?_⟩
  · exact ⟨hfound m hroot, effective_of_load (hfound m hroot)⟩
  · have hload : load d project named = .ok [] := load_eq_nil hroot hgoes
    exact ⟨hload, effective_of_load hload⟩
  · obtain ⟨fault, hfault⟩ := load_of_stops hstops
    refine ⟨fault, hfault, ?_⟩
    unfold effective
    rw [hfault]
    rfl
  · rintro ⟨fault, hfault, -⟩
    by_contra hgoes
    by_cases hroot : ∃ m, HasRoot d file (.map m)
    · obtain ⟨m, hroot⟩ := hroot
      cases (hfound m hroot).symm.trans hfault
    · cases (load_eq_nil (not_exists.mp hroot) hgoes).symm.trans hfault

-- a day that is not in the calendar stops the run, and so does a byte that begins no character
example :
    let stops (bytes : ByteArray) : Bool :=
      (load ⟨[(".scelint.yaml", .file bytes)], []⟩ (Path.ofText ".") none).toOption.isNone
    stops "day: 2024-02-30\n".toUTF8 = true ∧ stops ⟨#[0xFF]⟩ = true ∧
      stops "days: [\n".toUTF8 = false := by
  decide +kernel

end Compliance.Config
