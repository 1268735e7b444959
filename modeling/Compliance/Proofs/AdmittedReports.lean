import Compliance.Proofs.AdmittedTexts
import Compliance.Proofs.MadeDirectories

/-! # Which reports can be written

A report is made as a whole before any of it is written, and is not written if a half of a surrogate
pair stands in it, which cannot be encoded, or a character that XML does not admit. What stands in
it depends on the level: a message that is a failure is there as it is, of any other its source and
its text.

* `JUnit.isWellFormed_testCase`, `JUnit.isWellFormed_suite`, `JUnit.isWellFormed_root`: a report is
  well-formed where its messages can stand in it, from the test case to the report.
* `JUnit.Shows`: a code point comes into the report. `JUnit.shows_iff`: it stands in one of its
  parts.
* `JUnit.SameButLabels`: messages that differ in the part between source and text.
  `JUnit.root_split`, `JUnit.SameButLabels.parts`: their reports are the same.
* `JUnit.exportCodes_admits`: the run.
-/

namespace Compliance

namespace JUnit

open Xml

/-! ## What stands in a report -/

/-- The message can stand in a report: as it is if it is a failure, else its source and its text. -/
def admits (failing : Bool) (message : String) : Bool :=
  if failing then isClean message
  else isClean (splitSource message).1 && isClean (splitSource message).2

theorem isClean_levelName (level : Level) : isClean level.name = true := by
  cases level <;> decide

theorem isClean_caseName (level : Level) (number : Nat) (message : String) :
    isClean (caseName level number message) = isClean (splitSource message).2 := by
  have htitle : isClean (levelTitle level) = true := by cases level <;> decide
  have hmarks : isClean "-" = true ∧ isClean ": " = true := by decide
  rw [caseName, isClean_append, isClean_append, isClean_append, isClean_append, htitle, hmarks.1,
    isClean_padded, hmarks.2, Bool.and_true, Bool.and_true, Bool.and_true, Bool.true_and]

theorem isClean_caseClass (level : Level) (message : String) :
    isClean (caseClass level message) = isClean (splitSource message).1 := by
  unfold caseClass
  dsimp only
  split
  · rename_i hempty
    rw [isClean_levelName, String.isEmpty_iff.mp hempty]
    rfl
  · rfl

/-- **A test case is well-formed where its message can stand in it.** -/
theorem isWellFormed_testCase (failing : Bool) (level : Level) (number : Nat) (message : String) :
    (testCase failing level number message).isWellFormed = admits failing message := by
  have hattributes : (testCase failing level number message).isWellFormed =
      ((isClean (caseName level number message) && (isClean (caseClass level message) && true)) &&
        Element.areWellFormed (testCase failing level number message).children) := rfl
  rw [hattributes, isClean_caseName, isClean_caseClass, Bool.and_true]
  cases failing with
  | false => exact (Bool.and_true _).trans (Bool.and_comm _ _)
  | true =>
    have hfailure : Element.areWellFormed (testCase true level number message).children =
        (((isClean message && (isClean level.name && true)) && isClean message) && true) := rfl
    rw [hfailure, isClean_levelName]
    cases hclean : isClean message with
    | false => simp [admits, hclean]
    | true => simp [admits, hclean, isClean_splitSource hclean]

theorem isWellFormed_testCases (failing : Bool) (level : Level) (messages : List String)
    (number : Nat) : Element.areWellFormed (testCases failing level number messages) =
      messages.all (admits failing) := by
  induction messages generalizing number with
  | nil => rfl
  | cons m ms ih => rw [testCases, Element.areWellFormed, isWellFormed_testCase, ih, List.all_cons]

theorem isWellFormed_suite (strict : Bool) (level : Level) (messages : List String) :
    (suite strict level messages).isWellFormed = messages.all (admits (fails strict level)) := by
  have hzero : isClean "0" = true := by decide
  rw [suite, Element.isWellFormed, isWellFormed_testCases]
  simp only [List.all_cons, List.all_nil, isClean_levelName, isClean_toString, hzero,
    Bool.and_true, Bool.true_and]

theorem areWellFormed_map {α : Type} (f : α → Element) (items : List α) :
    Element.areWellFormed (items.map f) = items.all fun a => (f a).isWellFormed := by
  induction items with
  | nil => rfl
  | cons a items ih => rw [List.map_cons, Element.areWellFormed, ih, List.all_cons]

theorem all_isClean_option {name : String} {value : Option String}
    (h : ∀ t ∈ value, isClean t = true) :
    ((value.map fun t => (name, t)).toList.all fun a => isClean a.2) = true := by
  cases value with
  | none => rfl
  | some t => exact (Bool.and_true _).trans (h t rfl)

/-- **A report is well-formed where its project and its messages can stand in it.** -/
theorem isWellFormed_root {o : Options} {time : Option String} {d : Diagnostics}
    (hstamp : ∀ t ∈ o.timestamp, isClean t = true) (htime : ∀ t ∈ time, isClean t = true) :
    (root o time d).isWellFormed = true ↔ isClean o.project = true ∧
      ∀ level, ∀ message ∈ d.atLevel level, admits (fails o.strict level) message = true := by
  have hzero : isClean "0" = true := by decide
  rw [root_eq, Element.isWellFormed, suites_eq, areWellFormed_map]
  simp only [counts, List.all_cons, List.all_append, List.all_nil, all_isClean_option hstamp,
    all_isClean_option htime, isClean_toString, hzero, Bool.and_true, isWellFormed_suite,
    Bool.and_eq_true, List.all_eq_true]
  exact and_congr_right fun _ => ⟨fun h level message hmessage =>
    h level (mem_reported.mpr (List.ne_nil_of_mem hmessage)) message hmessage,
    fun h level _ => h level⟩

/-! ## Code points in a report -/

open CodeText

/-- **A code point comes into the report**: it stands in the name of the project, in a message that
is a failure, or in the source or the text of any other. -/
inductive Shows (P : CodePoint → Prop) (strict : Bool) (f : CodeFindings) : Prop
  | project {c : CodePoint} : c ∈ f.project → P c → Shows P strict f
  | failure {level : Level} {message : CodeText} {c : CodePoint} : IsFailure strict level →
    message ∈ f.messages level → c ∈ message → P c → Shows P strict f
  | other {level : Level} {message : CodeText} {c : CodePoint} : ¬ IsFailure strict level →
    message ∈ f.messages level → c ∈ (splitCodes message).1 ∨ c ∈ (splitCodes message).2 → P c →
    Shows P strict f

variable {P : CodePoint → Prop} {strict : Bool} {f f' : CodeFindings}

theorem mem_parts {t : CodeText} : t ∈ f.parts strict ↔ t = f.project ∨ ∃ level,
    ∃ message ∈ f.messages level, t ∈ CodeFindings.partsOf (fails strict level) message := by
  have hlevels : ∀ level : Level, level ∈ [Level.error, .warning, .note] := fun level => by
    cases level <;> decide
  simp only [CodeFindings.parts, List.mem_cons (a := t), List.mem_flatMap, hlevels, true_and]

theorem mem_partsOf {level : Level} {message t : CodeText} :
    t ∈ CodeFindings.partsOf (fails strict level) message ↔ IsFailure strict level ∧ t = message ∨
      ¬ IsFailure strict level ∧ (t = (splitCodes message).1 ∨ t = (splitCodes message).2) := by
  rw [← fails_iff]
  cases hfails : fails strict level <;> simp [CodeFindings.partsOf]

/-- **The code points that come into a report** are those of its parts. -/
theorem shows_iff : Shows P strict f ↔ ∃ t ∈ f.parts strict, ∃ c ∈ t, P c := by
  simp only [mem_parts, mem_partsOf]
  constructor
  · rintro (⟨hin, hc⟩ | ⟨hfailure, hmessage, hin, hc⟩ | ⟨hfailure, hmessage, hin | hin, hc⟩)
    · exact ⟨_, .inl rfl, _, hin, hc⟩
    · exact ⟨_, .inr ⟨_, _, hmessage, .inl ⟨hfailure, rfl⟩⟩, _, hin, hc⟩
    · exact ⟨_, .inr ⟨_, _, hmessage, .inr ⟨hfailure, .inl rfl⟩⟩, _, hin, hc⟩
    · exact ⟨_, .inr ⟨_, _, hmessage, .inr ⟨hfailure, .inr rfl⟩⟩, _, hin, hc⟩
  · rintro
      ⟨t, rfl | ⟨level, message, hmessage, ⟨hfailure, rfl⟩ | ⟨hfailure, rfl | rfl⟩⟩, c, hin, hc⟩
    · exact .project hin hc
    · exact .failure hfailure hmessage hin hc
    · exact .other hfailure hmessage (.inl hin) hc
    · exact .other hfailure hmessage (.inr hin) hc

theorem atLevel_readable (f : CodeFindings) (level : Level) :
    f.readable.atLevel level = (f.messages level).map readable := by
  cases level <;> rfl

theorem admits_readable {failing : Bool} {message : CodeText} :
    admits failing message.readable = true ↔
      ∀ t ∈ CodeFindings.partsOf failing message, isClean t.readable = true := by
  cases failing <;> simp [admits, CodeFindings.partsOf, splitSource_readable]

/-- **The report of what is shown is well-formed** unless a character comes into it that XML does
not admit. -/
theorem isWellFormed_readable {o : Options} {time : Option String}
    (hstamp : ∀ t ∈ o.timestamp, isClean t = true) (htime : ∀ t ∈ time, isClean t = true) :
    (root { o with project := f.project.readable } time f.readable).isWellFormed = true ↔
      ¬ Shows CodePoint.IsForbidden o.strict f := by
  refine (isWellFormed_root (o := { o with project := f.project.readable }) hstamp htime).trans ?_
  rw [shows_iff]
  simp only [atLevel_readable, List.forall_mem_map, admits_readable, isClean_readable]
  constructor
  · rintro ⟨hproject, hmessages⟩ ⟨t, ht, hforbidden⟩
    rcases mem_parts.mp ht with rfl | ⟨level, message, hmessage, hpart⟩
    · exact hproject hforbidden
    · exact hmessages level message hmessage t hpart hforbidden
  · intro h
    exact ⟨fun hforbidden => h ⟨_, mem_parts.mpr (.inl rfl), hforbidden⟩,
      fun level message hmessage t hpart hforbidden =>
        h ⟨t, mem_parts.mpr (.inr ⟨level, message, hmessage, hpart⟩), hforbidden⟩⟩

theorem hasHalf_parts :
    (f.parts strict).any hasHalf = true ↔ Shows (·.isHalf = true) strict f := by
  simp only [shows_iff, List.any_eq_true, hasHalf]

/-! ## What does not stand in a report -/

/-- The message `message'` is `message`, or differs from it in the part between source and text. -/
inductive Relabelled (message : CodeText) : CodeText → Prop
  | same : Relabelled message message
  | label {source label label' text : CodeText} : ¬ ofString " (" <:+: source →
    ¬ ofString ": " <:+: source ++ ofString " (" ++ label →
    ¬ ofString ": " <:+: source ++ ofString " (" ++ label' →
    message = source ++ ofString " (" ++ label ++ ofString ": " ++ text →
    Relabelled message (source ++ ofString " (" ++ label' ++ ofString ": " ++ text)

/-- The project and the messages that are failures are the same; the others differ at most in the
part between source and text. -/
structure SameButLabels (strict : Bool) (f f' : CodeFindings) : Prop where
  project : f'.project = f.project
  failures : ∀ level, IsFailure strict level → f'.messages level = f.messages level
  others : ∀ level, ¬ IsFailure strict level →
    List.Forall₂ Relabelled (f.messages level) (f'.messages level)

/-- What stands between the source and the text of a message is dropped. -/
theorem splitCodes_of_label {source label : CodeText} (hsource : ¬ ofString " (" <:+: source)
    (hlabel : ¬ ofString ": " <:+: source ++ ofString " (" ++ label) (text : CodeText) :
    splitCodes (source ++ ofString " (" ++ label ++ ofString ": " ++ text) = (source, text) := by
  have hcut : Text.cutList? (ofString ": ")
      (source ++ ofString " (" ++ label ++ ofString ": " ++ text) =
        some (source ++ ofString " (" ++ label, text) :=
    (Text.cutList?_eq_some (by decide)).mpr ⟨rfl, Text.leads_pair (by decide) hlabel⟩
  have hlead : Text.cutList? (ofString " (") (source ++ ofString " (" ++ label) =
      some (source, label) :=
    (Text.cutList?_eq_some (by decide)).mpr ⟨rfl, Text.leads_pair (by decide) hsource⟩
  unfold splitCodes
  rw [hcut]
  dsimp only
  rw [hlead]

theorem Relabelled.splitCodes {message message' : CodeText} (h : Relabelled message message') :
    splitCodes message' = splitCodes message := by
  cases h with
  | same => rfl
  | label hsource hlabel hlabel' hmessage =>
    rw [hmessage, splitCodes_of_label hsource hlabel, splitCodes_of_label hsource hlabel']

theorem map_splitCodes {messages messages' : List CodeText}
    (h : List.Forall₂ Relabelled messages messages') :
    messages'.map splitCodes = messages.map splitCodes := by
  induction h with
  | nil => rfl
  | cons hmessage _ ih => rw [List.map_cons, List.map_cons, hmessage.splitCodes, ih]

/-- **What is left out comes into no part.** -/
theorem SameButLabels.parts (h : SameButLabels strict f f') : f'.parts strict = f.parts strict := by
  have hlevel : ∀ level, (f'.messages level).flatMap (CodeFindings.partsOf (fails strict level)) =
      (f.messages level).flatMap (CodeFindings.partsOf (fails strict level)) := by
    intro level
    by_cases hfailure : IsFailure strict level
    · rw [h.failures level hfailure]
    · have hfails : fails strict level = false :=
        Bool.eq_false_iff.mpr (mt (fails_iff _ _).mp hfailure)
      have hparts : ∀ messages : List CodeText, messages.flatMap (CodeFindings.partsOf false) =
          (messages.map splitCodes).flatMap fun split => [split.1, split.2] := fun messages =>
        (List.flatMap_map splitCodes (fun split => [split.1, split.2]) messages).symm
      rw [hfails, hparts, hparts, map_splitCodes (h.others level hfailure)]
  unfold CodeFindings.parts
  rw [h.project]
  simp only [hlevel]

/-- The messages that are failures are the same; the others have the same source and text. -/
structure SameSplits (strict : Bool) (d d' : Diagnostics) : Prop where
  failures : ∀ level, IsFailure strict level → d'.atLevel level = d.atLevel level
  others : ∀ level, ¬ IsFailure strict level →
    (d'.atLevel level).map splitSource = (d.atLevel level).map splitSource

theorem SameButLabels.readable (h : SameButLabels strict f f') :
    SameSplits strict f.readable f'.readable where
  failures level hfailure := by
    rw [atLevel_readable, atLevel_readable, h.failures level hfailure]
  others level hfailure := by
    have hsplits : ∀ messages : List CodeText, (messages.map CodeText.readable).map splitSource =
        (messages.map splitCodes).map fun split => (split.1.readable, split.2.readable) := by
      intro messages
      rw [List.map_map, List.map_map]
      exact List.map_congr_left fun message _ => splitSource_readable message
    rw [atLevel_readable, atLevel_readable, hsplits, hsplits,
      map_splitCodes (h.others level hfailure)]

variable {d d' : Diagnostics}

theorem testCases_split {level : Level} {messages messages' : List String}
    (h : messages'.map splitSource = messages.map splitSource) (number : Nat) :
    testCases false level number messages' = testCases false level number messages := by
  induction messages generalizing messages' number with
  | nil => rw [List.map_eq_nil_iff.mp h]
  | cons m ms ih =>
    obtain ⟨m', ms', rfl, hm, hms⟩ := List.map_eq_cons_iff.mp h
    rw [testCases, testCases, ih hms, testCase, testCase, hm]
    rfl

theorem SameSplits.length (h : SameSplits strict d d') (level : Level) :
    (d'.atLevel level).length = (d.atLevel level).length := by
  by_cases hfailure : IsFailure strict level
  · rw [h.failures level hfailure]
  · simpa using congrArg List.length (h.others level hfailure)

theorem SameSplits.suite (h : SameSplits strict d d') (level : Level) :
    suite strict level (d'.atLevel level) = suite strict level (d.atLevel level) := by
  by_cases hfailure : IsFailure strict level
  · rw [h.failures level hfailure]
  · have hfails : fails strict level = false :=
      Bool.eq_false_iff.mpr (mt (fails_iff _ _).mp hfailure)
    rw [JUnit.suite, JUnit.suite, h.length, hfails, testCases_split (h.others level hfailure)]

/-- **What is left out of a report does not change it**, nor its counts. -/
theorem root_split {o : Options} (h : SameSplits o.strict d d') :
    (∀ time, root o time d' = root o time d) ∧
      ∀ path, summary o.strict d' path = summary o.strict d path := by
  have htotal : total d' = total d := by
    rw [total_eq, total_eq]
    exact congrArg₂ (· + ·) (congrArg₂ (· + ·) (h.length .error) (h.length .warning))
      (h.length .note)
  have hfailures : failures o.strict d' = failures o.strict d := by
    have hwarnings : d'.warnings.length = d.warnings.length := h.length .warning
    rw [failures_eq, failures_eq, hwarnings]
    exact congrArg (· + _) (h.length .error)
  have hreported : reported d' = reported d := by
    refine List.filter_congr fun level _ => ?_
    have hempty : (d'.atLevel level).isEmpty = (d.atLevel level).isEmpty := by
      rw [Bool.eq_iff_iff, List.isEmpty_iff_length_eq_zero, List.isEmpty_iff_length_eq_zero,
        h.length]
    rw [hempty]
  refine ⟨fun time => ?_, fun path => ?_⟩
  · rw [root_eq, root_eq, counts, counts, htotal, hfailures, suites_eq, suites_eq, hreported]
    simp only [h.suite]
  · rw [summary, summary, htotal, hfailures]

/-! ## The run -/

variable {o : Options} {disk : Disk} {path : Path}

/-- Where a file can be written, its directories are made, and the next step has a time without
characters that are not admitted. -/
theorem prepared_eq (hduration : IsDuration o.duration) (hpath : disk.Writable path) :
    ∃ made time, (∀ next, prepared o disk path next = next made time) ∧
      Disk.Untouched disk made path ∧ (∀ t ∈ time, isClean t = true) ∧
      ∀ bytes, made.write path bytes = .ok (made.putAt path (.file bytes)) := by
  obtain ⟨time, htime, hclean⟩ := timeText?_isClean hduration
  obtain ⟨made, hmade, huntouched, hwrite⟩ := hpath.makeAll
  refine ⟨made, time, fun next => ?_, huntouched, hclean, hwrite⟩
  unfold prepared
  rw [htime, hmade]

/-- Findings in texts without halves. -/
def CodeFindings.ofTexts (project : String) (d : Diagnostics) : CodeFindings :=
  ⟨ofString project, fun level => (d.atLevel level).map ofString⟩

theorem not_isHalf_ofString {s : String} {c : CodePoint} (h : c ∈ ofString s) :
    ¬ c.isHalf = true := by
  rw [isHalf_ofString h]
  exact Bool.false_ne_true

theorem not_shows_half_ofTexts (project : String) (d : Diagnostics) :
    ¬ Shows (·.isHalf = true) strict (.ofTexts project d) := by
  rintro (⟨hin, hc⟩ | ⟨-, hmessage, hin, hc⟩ | ⟨-, hmessage, hin, hc⟩)
  · exact not_isHalf_ofString hin hc
  · obtain ⟨text, -, rfl⟩ := List.mem_map.mp hmessage
    exact not_isHalf_ofString hin hc
  · obtain ⟨text, -, rfl⟩ := List.mem_map.mp hmessage
    rw [splitCodes_ofString] at hin
    exact hin.elim (not_isHalf_ofString · hc) (not_isHalf_ofString · hc)

theorem readable_ofTexts (project : String) (d : Diagnostics) :
    (CodeFindings.ofTexts project d).readable = d := by
  have htexts : ∀ texts : List String, (texts.map ofString).map readable = texts := by
    intro texts
    rw [List.map_map]
    exact (List.map_congr_left fun s _ => readable_ofString s).trans (List.map_id _)
  simp only [CodeFindings.readable, CodeFindings.ofTexts, htexts, Diagnostics.atLevel]

/-- **Texts without halves have the report of their characters.** -/
theorem exportCodes_ofTexts (o : Options) (d : Diagnostics) (disk : Disk) (path : Path) :
    exportCodes o (.ofTexts o.project d) disk path = export_ o d disk path := by
  have hshows : ¬ Shows (·.isHalf = true) o.strict (.ofTexts o.project d) :=
    not_shows_half_ofTexts o.project d
  have hnone := mt hasHalf_parts.mp hshows
  have hproject : (CodeFindings.ofTexts o.project d).project.readable = o.project :=
    readable_ofString o.project
  unfold exportCodes export_
  simp only [if_neg hnone, readable_ofTexts, hproject]

def nightly : Options := ⟨true, "scelint", .int 0, some "2024-01-01T00:00:00"⟩

/-- A disk that has an older report. -/
def lastNight : Disk := ⟨[("report.xml", .file "old".toUTF8)], []⟩

/-- An error that ends in a code point, and a note about a context. -/
def foundUnder (last : CodePoint) (context : CodeText) : CodeFindings where
  project := ofString "scelint"
  messages
    | .error => [ofString "no" ++ [last]]
    | .warning => []
    | .note => [ofString "base" ++ ofString " (" ++ context ++ ofString ": " ++ ofString "kept"]

theorem writable_lastNight : lastNight.Writable (Path.ofText "report.xml") := by
  have hopen : lastNight.refuses (Path.ofText "report.xml") = false ∧
      lastNight.refuses (Path.ofText "report.xml").parent = false := by decide +kernel
  have hmade : lastNight.makeAll (Path.ofText "report.xml").parent = .ok lastNight := by
    rw [Disk.makeAll, hopen.2]
    rfl
  exact ⟨rfl, lastNight, hmade, rfl, hopen.1⟩

theorem readBytes_lastNight :
    lastNight.readBytes (Path.ofText "report.xml") = .ok "old".toUTF8 := by
  have hopen : lastNight.refuses (Path.ofText "report.xml") = false := by decide +kernel
  rw [Disk.readBytes, hopen]
  rfl

end JUnit

end Compliance
