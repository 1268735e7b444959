import Compliance.Proofs.ReadElements
import Compliance.Proofs.ReportFacts

/-! # No failure is lost in a report

A report is written for readers that see the file alone. Its text, the time in it apart, says of
each level how many messages there are, and which, where they count as failures.

* `JUnit.stamp`, `JUnit.opening`, `JUnit.document_root`: where the time stands in the file.
* `JUnit.casesOf`, `JUnit.failureText?`: the test cases of a level, and the message of one, as they
  are read from the element that a file shows.
* `JUnit.casesOf_root`, `JUnit.failureText?_testCases`: what is read is what was found.
* `JUnit.export_lossless`: two runs with files that differ in the time alone.
-/

namespace Compliance.JUnit

open Xml

/-- The time that a report was made, as it stands in the file. -/
def stamp : Option String → String
  | none => ""
  | some t => " timestamp=\"" ++ escape t ++ "\""

/-- The file of a report up to the time. -/
def opening (project : String) : String :=
  "<?xml version=\"1.0\" encoding=\"UTF-8\"?>\n" ++
    ("<testsuites name=\"" ++ escape project ++ "\"")

def casesOf (level : Level) (report : Element) : List Element :=
  (report.children.filter fun suite => suite.attributes.lookup "name" == some level.name).flatMap
    (·.children)

/-- The message of a test case that has failed. -/
def failureText? (test : Element) : Option String :=
  test.children.head?.bind fun failure => failure.attributes.lookup "message"

/-- The attributes of a report behind the time. -/
def counts (strict : Bool) (time : Option String) (d : Diagnostics) : List (String × String) :=
  [("tests", toString (total d)), ("failures", toString (failures strict d)), ("errors", "0")] ++
    (time.map fun t => ("time", t)).toList

def suites (strict : Bool) (d : Diagnostics) : List Element :=
  (levels d).map fun l => suite strict l.1 l.2

theorem root_eq (o : Options) (time : Option String) (d : Diagnostics) :
    root o time d = .node "testsuites" (("name", o.project) ::
      ((o.timestamp.map fun t => ("timestamp", t)).toList ++ counts o.strict time d))
      (suites o.strict d) := by
  unfold root counts suites
  simp only [List.append_assoc, List.cons_append, List.nil_append]

/-! ## Names -/

theorem wellNamed_testCase (failing : Bool) (level : Level) (number : Nat) (message : String) :
    (testCase failing level number message).WellNamed := by
  have hnames : ["name", "classname"].all isName = true := by decide
  have hfailure : ["message", "type"].all isName = true := by decide
  refine .node (by decide) (isName_of_map hnames rfl) fun e he => ?_
  split at he
  · rw [List.mem_singleton.mp he]
    exact .leaf (by decide) (isName_of_map hfailure rfl)
  · cases he

theorem wellNamed_testCases (failing : Bool) (level : Level) (ms : List String) (number : Nat) :
    ∀ e ∈ testCases failing level number ms, e.WellNamed := by
  induction ms generalizing number with
  | nil => exact fun e he => absurd he List.not_mem_nil
  | cons m ms ih => exact List.forall_mem_cons.mpr ⟨wellNamed_testCase _ _ _ _, ih (number + 1)⟩

theorem wellNamed_suite (strict : Bool) (level : Level) (ms : List String) :
    (suite strict level ms).WellNamed := by
  have hnames : ["name", "tests", "failures", "errors", "skipped"].all isName = true := by decide
  exact .node (by decide) (isName_of_map hnames rfl) (wellNamed_testCases _ _ _ _)

theorem wellNamed_root (o : Options) (time : Option String) (d : Diagnostics) :
    (root o time d).WellNamed := by
  have hfront : ["name", "timestamp", "tests", "failures", "errors", "time"].all isName = true := by
    decide
  rw [root_eq]
  refine .node (by decide) (fun a ha => List.all_eq_true.mp hfront _ ?_) fun e he => ?_
  · unfold counts at ha
    simp only [List.mem_cons, List.mem_append, Option.mem_toList, Option.map_eq_some_iff,
      List.not_mem_nil, or_false] at ha
    rcases ha with rfl | ⟨t, -, rfl⟩ | (rfl | rfl | rfl) | ⟨t, -, rfl⟩ <;> simp
  · obtain ⟨l, -, rfl⟩ := List.mem_map.mp he
    exact wellNamed_suite _ _ _

/-! ## The file of a report -/

theorem attributesText_stamp (t : Option String) (as : List (String × String)) :
    attributesText ((t.map fun t => ("timestamp", t)).toList ++ as) =
      stamp t ++ attributesText as := by
  cases t with
  | none => exact String.empty_append.symm
  | some t =>
    rw [Option.map_some, Option.toList_some, List.singleton_append, attributesText_cons]
    rfl

theorem rootTag_eq (project : String) :
    "" ++ "<" ++ "testsuites" ++ (" " ++ "name" ++ "=\"" ++ escape project ++ "\"") =
      "<testsuites name=\"" ++ escape project ++ "\"" := by
  apply String.toList_inj.mp
  simp

/-- **The time stands in one place of the file**, and nothing else depends on it. -/
theorem document_root (strict : Bool) (project : String) (duration : Scalar)
    (time : Option String) (d : Diagnostics) :
    ∃ remainder, ∀ t, document (root ⟨strict, project, duration, t⟩ time d) =
      opening project ++ stamp t ++ remainder := by
  refine ⟨attributesText (counts strict time d) ++
    (Element.node "testsuites" [] (suites strict d)).rest "", fun t => ?_⟩
  have hlayout : (root ⟨strict, project, duration, t⟩ time d).layout "" =
      "" ++ "<" ++ "testsuites" ++ (" " ++ "name" ++ "=\"" ++ escape project ++ "\"") ++
        stamp t ++ (attributesText (counts strict time d) ++
          (Element.node "testsuites" [] (suites strict d)).rest "") := by
    rw [root_eq, Element.layout_eq, Element.attributes, Element.name, attributesText_cons,
      attributesText_stamp]
    simp only [String.append_assoc]
    rfl
  unfold document opening
  rw [hlayout, rootTag_eq]
  simp only [String.append_assoc]

/-! ## Reading the report -/

theorem attributes_seen (e : Element) : e.seen.attributes = e.attributes := by
  cases e with
  | leaf name attributes text =>
    rw [Element.seen]
    split <;> rfl
  | node name attributes children => rfl

theorem children_seen (e : Element) : e.seen.children = e.children.map Element.seen := by
  cases e with
  | leaf name attributes text =>
    rw [Element.seen]
    split <;> rfl
  | node name attributes children => exact Element.seenAll_eq_map children

theorem levels_filter (d : Diagnostics) (level : Level) :
    (levels d).filter (fun l => l.1 == level) =
      [(level, d.atLevel level)].filter fun l => !l.2.isEmpty := by
  have hone : d.byLevel.filter (fun l => l.1 == level) = [(level, d.atLevel level)] := by
    cases level <;> rfl
  rw [← hone, levels, List.filter_filter, List.filter_filter]
  simp only [Bool.and_comm]

/-- **The cases of a level are those of its messages.** -/
theorem casesOf_root (o : Options) (time : Option String) (d : Diagnostics) (level : Level) :
    casesOf level (root o time d).seen =
      (testCases (fails o.strict level) level 1 (d.atLevel level)).map Element.seen := by
  have hname : ∀ l : Level × List String,
      ((suite o.strict l.1 l.2).seen.attributes.lookup "name" == some level.name) =
        (l.1 == level) := by
    intro l
    rw [attributes_seen, suite, Element.attributes, List.lookup_cons_self]
    cases l.1 <;> cases level <;> decide
  have hcases : ∀ l : Level × List String, (suite o.strict l.1 l.2).seen.children =
      (testCases (fails o.strict l.1) l.1 1 l.2).map Element.seen := fun l => children_seen _
  unfold casesOf
  rw [children_seen, root_eq, Element.children, suites, List.map_map, List.filter_map,
    List.flatMap_map]
  simp only [Function.comp_def, hname, hcases]
  rw [levels_filter]
  cases d.atLevel level with
  | nil => rfl
  | cons m ms => exact List.append_nil _

theorem length_testCases (failing : Bool) (level : Level) (ms : List String) (number : Nat) :
    (testCases failing level number ms).length = ms.length := by
  induction ms generalizing number with
  | nil => rfl
  | cons m ms ih => rw [testCases, List.length_cons, ih, List.length_cons]

/-- **The message of a case that has failed is there as it is.** -/
theorem failureText?_testCase (level : Level) (number : Nat) (message : String) :
    failureText? (testCase true level number message).seen = some message := by
  unfold failureText?
  rw [children_seen]
  change ((some (Element.leaf "failure" [("message", message), ("type", level.name)]
    message).seen).bind fun failure => failure.attributes.lookup "message") = some message
  rw [Option.bind_some, attributes_seen]
  rfl

theorem failureText?_testCases (level : Level) (ms : List String) (number : Nat) :
    ((testCases true level number ms).map Element.seen).filterMap failureText? = ms := by
  induction ms generalizing number with
  | nil => rfl
  | cons m ms ih =>
    rw [testCases, List.map_cons, List.filterMap_cons, failureText?_testCase, ih]

/-- **Reports that show the same element** are about as many messages of each level, and about the
same where they count as failures. -/
theorem atLevel_of_seen {strict : Bool} {o o' : Options} (ho : o.strict = strict)
    (ho' : o'.strict = strict) {time time' : Option String} {d d' : Diagnostics}
    (h : (root o time d).seen = (root o' time' d').seen) (level : Level) :
    (d.atLevel level).length = (d'.atLevel level).length ∧
      (fails strict level = true → d.atLevel level = d'.atLevel level) := by
  have hcases := congrArg (casesOf level) h
  rw [casesOf_root, casesOf_root, ho, ho'] at hcases
  constructor
  · have hlength := congrArg List.length hcases
    rw [List.length_map, List.length_map, length_testCases, length_testCases] at hlength
    exact hlength
  · intro hfails
    have htexts := congrArg (List.filterMap failureText?) hcases
    rw [hfails, failureText?_testCases, failureText?_testCases] at htexts
    exact htexts

/-! ## Two runs -/

/-- **No failure is lost in a report.** Two runs, strict or not, write files that differ in the time
alone: then they have the same errors, the same warnings where those are failures, and as many
messages of each level. -/
theorem export_lossless {strict : Bool} {project : String} {duration : Scalar}
    {t t' : Option String} {d d' : Diagnostics} {disk disk' after after' : Disk} {path path' : Path}
    {s s' : Summary} {remainder : String}
    (h : export_ ⟨strict, project, duration, t⟩ d disk path = (after, .ok s))
    (h' : export_ ⟨strict, project, duration, t'⟩ d' disk' path' = (after', .ok s'))
    (hfile : after.readBytes path = .ok (opening project ++ stamp t ++ remainder).toUTF8)
    (hfile' : after'.readBytes path' = .ok (opening project ++ stamp t' ++ remainder).toUTF8) :
    d.errors = d'.errors ∧ (strict = true → d.warnings = d'.warnings) ∧
      d.errors.length = d'.errors.length ∧ d.warnings.length = d'.warnings.length ∧
      d.notes.length = d'.notes.length := by
  -- what stands behind the time is the same in both files, so the files without it are one
  have hplain : ∀ {t : Option String} {d : Diagnostics} {disk after : Disk} {path : Path}
      {s : Summary}, export_ ⟨strict, project, duration, t⟩ d disk path = (after, .ok s) →
      after.readBytes path = .ok (opening project ++ stamp t ++ remainder).toUTF8 →
      ∃ time, document (root ⟨strict, project, duration, none⟩ time d) =
        opening project ++ stamp none ++ remainder := by
    intro t d disk after path s h hfile
    obtain ⟨-, time, hwritten⟩ := export_ok h
    obtain ⟨rest, hrest⟩ := document_root strict project duration time d
    rw [hfile, hrest t] at hwritten
    have htext := String.toByteArray_inj.mp (Except.ok.inj hwritten)
    obtain rfl := (String.append_right_inj _).mp htext
    exact ⟨time, hrest none⟩
  obtain ⟨time, hdocument⟩ := hplain h hfile
  obtain ⟨time', hdocument'⟩ := hplain h' hfile'
  have hseen := document_inj (wellNamed_root _ _ _) (wellNamed_root _ _ _)
    (hdocument.trans hdocument'.symm)
  have hlevel := atLevel_of_seen rfl rfl hseen
  exact ⟨(hlevel .error).2 rfl, fun hstrict => (hlevel .warning).2 hstrict, (hlevel .error).1,
    (hlevel .warning).1, (hlevel .note).1⟩

/-- The findings of a run with a note about a context. -/
def foundIn (context : String) : Diagnostics :=
  ⟨["a.yaml: \"b\" < c"], ["&lt;"], ["base (" ++ context ++ "): kept"]⟩

/-- A run that writes them to an empty disk. -/
def reportOn (day context : String) : Disk × Except Fault Summary :=
  export_ ⟨true, "scelint", .int 0, some day⟩ (foundIn context) ⟨[], []⟩ (Path.ofText "report.xml")

/-- Its file behind the time. -/
def reportBehind : String :=
  attributesText (counts true none (foundIn "x")) ++
    (Element.node "testsuites" [] (suites true (foundIn "x"))).rest ""

theorem reportOn_eq {day context : String} {s : Summary}
    (h : (reportOn day context).2.toOption = some s) :
    export_ ⟨true, "scelint", .int 0, some day⟩ (foundIn context) ⟨[], []⟩
      (Path.ofText "report.xml") = ((reportOn day context).1, .ok s) := by
  change reportOn day context = _
  cases hrun : reportOn day context with
  | mk after outcome =>
    rw [hrun] at h
    cases outcome with
    | error e => cases h
    | ok found => rw [Option.some.inj h]

theorem readBytes_reportOn {day context : String} {bytes : ByteArray}
    (h : ((reportOn day context).1.readBytes (Path.ofText "report.xml")).toOption.map
      (·.data.toList) = some bytes.data.toList) :
    (reportOn day context).1.readBytes (Path.ofText "report.xml") = .ok bytes := by
  cases hread : (reportOn day context).1.readBytes (Path.ofText "report.xml") with
  | error e =>
    rw [hread] at h
    cases h
  | ok found =>
    rw [hread] at h
    rw [ByteArray.ext (Array.toList_inj.mp (Option.some.inj h))]

/-- Two runs whose notes differ in a part that a case leaves out write one report. -/
theorem export_lossless_contexts :
    (∃ s, export_ ⟨true, "scelint", .int 0, some "2024-01-01"⟩ (foundIn "x") ⟨[], []⟩
      (Path.ofText "report.xml") = ((reportOn "2024-01-01" "x").1, .ok s)) ∧
    (∃ s, export_ ⟨true, "scelint", .int 0, some "2024-01-02"⟩ (foundIn "y") ⟨[], []⟩
      (Path.ofText "report.xml") = ((reportOn "2024-01-02" "y").1, .ok s)) ∧
    (reportOn "2024-01-01" "x").1.readBytes (Path.ofText "report.xml") =
      .ok (opening "scelint" ++ stamp (some "2024-01-01") ++ reportBehind).toUTF8 ∧
    (reportOn "2024-01-02" "y").1.readBytes (Path.ofText "report.xml") =
      .ok (opening "scelint" ++ stamp (some "2024-01-02") ++ reportBehind).toUTF8 ∧
    foundIn "x" ≠ foundIn "y" ∧ (foundIn "x").errors = (foundIn "y").errors ∧
    (foundIn "x").warnings = (foundIn "y").warnings ∧
    (foundIn "x").notes.length = (foundIn "y").notes.length := by
  have hx : (reportOn "2024-01-01" "x").2.toOption = some ⟨"report.xml", 3, 2, 1⟩ := by
    decide +kernel
  have hy : (reportOn "2024-01-02" "y").2.toOption = some ⟨"report.xml", 3, 2, 1⟩ := by
    decide +kernel
  have hfile : (reportOn "2024-01-01" "x").1.readBytes (Path.ofText "report.xml") =
      .ok (opening "scelint" ++ stamp (some "2024-01-01") ++ reportBehind).toUTF8 :=
    readBytes_reportOn (by decide +kernel)
  have hfile' : (reportOn "2024-01-02" "y").1.readBytes (Path.ofText "report.xml") =
      .ok (opening "scelint" ++ stamp (some "2024-01-02") ++ reportBehind).toUTF8 :=
    readBytes_reportOn (by decide +kernel)
  have hother : foundIn "x" ≠ foundIn "y" := by
    decide +kernel
  have hsame := export_lossless (reportOn_eq hx) (reportOn_eq hy) hfile hfile'
  obtain ⟨herrors, hwarnings, -, -, hnotes⟩ := hsame
  exact ⟨⟨_, reportOn_eq hx⟩, ⟨_, reportOn_eq hy⟩, hfile, hfile', hother, herrors,
    hwarnings rfl, hnotes⟩

end Compliance.JUnit
