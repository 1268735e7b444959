import Compliance.Proofs.LosslessReport
import Mathlib.Algebra.Ring.Nat
import Mathlib.Data.List.Forall2
import Mathlib.Data.List.Nodup

/-! # A report accounts for every message

A report is a list of suites, a suite is a list of test cases, and each message is one of these. The
counts in the attributes are kept while the elements are made, and count what is there; no two test
cases have one name, for their numbers end in front of whatever the messages say.

* `JUnit.IsCase`, `JUnit.IsSuite`, `JUnit.Accounts`: what a report says about messages, level by
  level.
* `Text.padded_inj`, `JUnit.caseName_inj`: the level and the number are read off a name.
* `JUnit.isCases_testCases`: the test cases of a level, by induction on its messages.
  `JUnit.isSuite_suite`, `JUnit.accounts_root`: the suite and the report.
* `JUnit.accounts_seen`: reading a report from its file loses nothing of this.
* `JUnit.export_accounts`: the file of a run.
-/

namespace Compliance

namespace Text

/-! ## Numbers -/

theorem ofDigitChars_zeros (count : Nat) (digits : List Char) :
    Nat.ofDigitChars 10 (List.replicate count '0' ++ digits) 0 = Nat.ofDigitChars 10 digits 0 := by
  induction count with
  | zero => rfl
  | succ count ih =>
    have hzero : ∀ rest, Nat.ofDigitChars 10 ('0' :: rest) 0 = Nat.ofDigitChars 10 rest 0 :=
      fun _ => Nat.ofDigitChars_cons_digitChar_of_lt_ten (n := 0) (by decide)
    rw [List.replicate_succ, List.cons_append, hzero, ih]

/-- **A padded number is read back**, however many digits it has. -/
theorem ofDigitChars_padded (width n : Nat) :
    Nat.ofDigitChars 10 (padded width n).toList 0 = n := by
  rw [padded, String.toList_ofList, ofDigitChars_zeros, Nat.ofDigitChars_ten_toDigits]

theorem padded_inj {width m n : Nat} (h : padded width m = padded width n) : m = n := by
  rw [← ofDigitChars_padded width m, h, ofDigitChars_padded]

theorem isDigit_of_mem_padded {width n : Nat} {c : Char} (h : c ∈ (padded width n).toList) :
    c.isDigit = true := by
  rw [padded, String.toList_ofList, List.mem_append] at h
  rcases h with hzero | hdigit
  · rw [(List.mem_replicate.mp hzero).2]
    rfl
  · exact Nat.isDigit_of_mem_toDigits (by decide) (by decide) hdigit

end Text

namespace JUnit

open Xml

/-! ## What a report says -/

def hasFailed (test : Element) : Bool := test.children.any fun e => e.name == "failure"

/-- The name of the test case of a message. -/
def caseName (level : Level) (number : Nat) (message : String) : String :=
  levelTitle level ++ "-" ++ Text.padded 3 number ++ ": " ++ (splitSource message).2

def caseClass (level : Level) (message : String) : String :=
  let source := (splitSource message).1
  if source.isEmpty then level.name else source

/-- Messages of the level are failures. -/
def IsFailure (strict : Bool) (level : Level) : Prop :=
  level = .error ∨ level = .warning ∧ strict = true

instance (strict : Bool) (level : Level) : Decidable (IsFailure strict level) :=
  inferInstanceAs (Decidable (_ ∨ _))

/-- The element is the test case of the message with this number, and has failed with the message as
it is where messages of this level are failures. -/
@[mk_iff]
structure IsCase (strict : Bool) (level : Level) (number : Nat) (message : String)
    (test : Element) : Prop where
  tag : test.name = "testcase"
  name : attribute? "name" test = some (caseName level number message)
  class_ : attribute? "classname" test = some (caseClass level message)
  failed : test.children.map (fun e => (e.name, attribute? "message" e)) =
    if IsFailure strict level then [("failure", some message)] else []

/-- The element is the suite of the messages of a level, and counts its test cases and those of them
that have failed. -/
@[mk_iff]
structure IsSuite (strict : Bool) (level : Level) (messages : List String) (suite : Element) :
    Prop where
  tag : suite.name = "testsuite"
  name : attribute? "name" suite = some level.name
  cases : List.Forall₂ (fun m test => IsCase strict level m.2 m.1 test) (messages.zipIdx 1)
    suite.children
  tests : attribute? "tests" suite = some (toString suite.children.length)
  failures : attribute? "failures" suite = some (toString (suite.children.countP hasFailed))

/-- The levels of which there are messages, worst first. -/
def reported (d : Diagnostics) : List Level :=
  [.error, .warning, .note].filter fun level => !(d.atLevel level).isEmpty

/-- **The report accounts for every message**, and the summary is that of the report. -/
@[mk_iff]
structure Accounts (strict : Bool) (d : Diagnostics) (s : Summary) (report : Element) : Prop where
  tag : report.name = "testsuites"
  suites : List.Forall₂ (fun level suite => IsSuite strict level (d.atLevel level) suite)
    (reported d) report.children
  tests : attribute? "tests" report = some (toString s.total)
  failures : attribute? "failures" report = some (toString s.failures)
  total : s.total = (report.children.map fun suite => suite.children.length).sum
  failed : s.failures = (report.children.map fun suite => suite.children.countP hasFailed).sum
  passed : s.passed + s.failures = s.total
  names : ((report.children.flatMap (·.children)).map (attribute? "name")).Nodup

theorem attribute?_eq (name : String) (e : Element) :
    attribute? name e = e.attributes.lookup name := by
  cases e <;> rfl

theorem fails_iff (strict : Bool) (level : Level) :
    fails strict level = true ↔ IsFailure strict level := by
  cases level <;> simp [fails, IsFailure]

/-! ## Names of test cases -/

theorem toList_caseName (level : Level) (number : Nat) (message : String) :
    (caseName level number message).toList = (levelTitle level).toList ++ '-' ::
      ((Text.padded 3 number).toList ++ ':' :: ' ' :: (splitSource message).2.toList) := by
  simp [caseName]

/-- **The level and the number are read off the name of a test case**, whatever its message. -/
theorem caseName_inj {level level' : Level} {number number' : Nat} {message message' : String}
    (h : caseName level number message = caseName level' number' message') :
    level = level' ∧ number = number' := by
  have htitle : ∀ level : Level, ∀ c ∈ (levelTitle level).toList, (c != '-') = true := by
    intro level
    have hall : (levelTitle level).toList.all (· != '-') = true := by
      cases level <;> decide
    exact List.all_eq_true.mp hall
  have hlist := congrArg String.toList h
  rw [toList_caseName, toList_caseName] at hlist
  obtain ⟨hlevel, hbehind⟩ := run_inj (htitle level) (htitle level') (stops_cons (by decide) _)
    (stops_cons (by decide) _) hlist
  obtain ⟨hnumber, -⟩ := run_inj (fun _ => Text.isDigit_of_mem_padded)
    (fun _ => Text.isDigit_of_mem_padded) (stops_cons (by decide) _) (stops_cons (by decide) _)
    (List.cons.inj hbehind).2
  refine ⟨?_, Text.padded_inj (String.toList_inj.mp hnumber)⟩
  cases level <;> cases level' <;> first | rfl | exact absurd hlevel (by decide)

def caseNames (d : Diagnostics) (level : Level) : List (Option String) :=
  ((d.atLevel level).zipIdx 1).map fun m => some (caseName level m.2 m.1)

theorem nodup_caseNames (d : Diagnostics) (level : Level) : (caseNames d level).Nodup := by
  have hnumbers : (((d.atLevel level).zipIdx 1).map Prod.snd).Nodup := by
    rw [List.zipIdx_map_snd]
    exact List.nodup_range'
  refine List.pairwise_map.mpr ((List.pairwise_map.mp hnumbers).imp fun hnumber hname => ?_)
  exact hnumber (caseName_inj (Option.some.inj hname)).2

theorem disjoint_caseNames (d : Diagnostics) {level level' : Level} (h : level ≠ level') :
    List.Disjoint (caseNames d level) (caseNames d level') := by
  intro name hname hname'
  obtain ⟨m, -, rfl⟩ := List.mem_map.mp hname
  obtain ⟨m', -, hsame⟩ := List.mem_map.mp hname'
  exact h (caseName_inj (Option.some.inj hsame)).1.symm

theorem map_name_suites {strict : Bool} {d : Diagnostics} {levels : List Level}
    {suites : List Element}
    (h : List.Forall₂ (fun level suite => IsSuite strict level (d.atLevel level) suite) levels
      suites) :
    (suites.flatMap (·.children)).map (attribute? "name") = levels.flatMap (caseNames d) := by
  induction h with
  | nil => rfl
  | @cons level suite levels suites hsuite _ ih =>
    have hnames : List.Forall₂ (· = ·) (suite.children.map (attribute? "name"))
        (caseNames d level) :=
      List.forall₂_map_left_iff.mpr (List.forall₂_map_right_iff.mpr
        (hsuite.cases.flip.imp fun _ _ htest => htest.name))
    rw [List.forall₂_eq_eq_eq] at hnames
    rw [List.flatMap_cons, List.flatMap_cons, List.map_append, ih, hnames]

/-! ## The elements of a report -/

theorem isCase_testCase (strict : Bool) (level : Level) (number : Nat) (message : String) :
    IsCase strict level number message (testCase (fails strict level) level number message) := by
  refine ⟨rfl, rfl, rfl, ?_⟩
  simp only [← fails_iff, testCase, Element.children]
  split <;> rfl

/-- **The test cases of a level are those of its messages**, one after the other. -/
theorem isCases_testCases (strict : Bool) (level : Level) (messages : List String) (number : Nat) :
    List.Forall₂ (fun m test => IsCase strict level m.2 m.1 test) (messages.zipIdx number)
      (testCases (fails strict level) level number messages) := by
  induction messages generalizing number with
  | nil => exact .nil
  | cons m ms ih =>
    rw [List.zipIdx_cons, testCases]
    exact .cons (isCase_testCase strict level number m) (ih (number + 1))

theorem hasFailed_testCase (failing : Bool) (level : Level) (number : Nat) (message : String) :
    hasFailed (testCase failing level number message) = failing := by
  cases failing <;> rfl

theorem countP_testCases (failing : Bool) (level : Level) (messages : List String) (number : Nat) :
    (testCases failing level number messages).countP hasFailed =
      if failing then messages.length else 0 := by
  induction messages generalizing number with
  | nil => cases failing <;> rfl
  | cons m ms ih =>
    rw [testCases, List.countP_cons, ih, hasFailed_testCase]
    cases failing <;> rfl

theorem isSuite_suite (strict : Bool) (level : Level) (messages : List String) :
    IsSuite strict level messages (suite strict level messages) where
  tag := rfl
  name := rfl
  cases := isCases_testCases strict level messages 1
  tests := by
    rw [suite, Element.children, length_testCases]
    rfl
  failures := by
    rw [suite, Element.children, countP_testCases]
    rfl

theorem mem_reported {d : Diagnostics} {level : Level} :
    level ∈ reported d ↔ d.atLevel level ≠ [] := by
  have hlevel : level ∈ [Level.error, .warning, .note] := by cases level <;> decide
  simp [reported, hlevel]

theorem suites_eq (strict : Bool) (d : Diagnostics) :
    suites strict d = (reported d).map fun level => suite strict level (d.atLevel level) := by
  have hbyLevel : d.byLevel = [.error, .warning, .note].map fun level => (level, d.atLevel level) :=
    rfl
  have hlevels : levels d = (reported d).map fun level => (level, d.atLevel level) := by
    rw [levels, hbyLevel, List.filter_map]
    rfl
  rw [suites, hlevels, List.map_map]
  rfl

theorem total_eq (d : Diagnostics) :
    total d = d.errors.length + d.warnings.length + d.notes.length :=
  foldl_levels d (fun l => l.2.length) fun _ => rfl

theorem failures_le_total (strict : Bool) (d : Diagnostics) : failures strict d ≤ total d := by
  rw [failures_eq, total_eq]
  split <;> omega

/-- **A report accounts for every message.** -/
theorem accounts_root (o : Options) (time : Option String) (d : Diagnostics) (path : Path) :
    Accounts o.strict d (summary o.strict d path) (root o time d) := by
  have hchildren : (root o time d).children = suites o.strict d := rfl
  have hsuites : List.Forall₂ (fun level suite => IsSuite o.strict level (d.atLevel level) suite)
      (reported d) (suites o.strict d) := by
    rw [suites_eq]
    exact List.forall₂_map_right_iff.mpr (List.forall₂_same.mpr fun _ _ => isSuite_suite _ _ _)
  have hattributes : attribute? "tests" (root o time d) = some (toString (total d)) ∧
      attribute? "failures" (root o time d) = some (toString (failures o.strict d)) := by
    obtain ⟨strict, project, duration, timestamp⟩ := o
    cases timestamp <;> exact ⟨rfl, rfl⟩
  refine ⟨rfl, hchildren ▸ hsuites, hattributes.1, hattributes.2, ?_, ?_, ?_, ?_⟩
  · rw [hchildren, suites, List.map_map, List.sum_eq_foldl_nat]
    simp only [Function.comp_def, suite, Element.children, length_testCases]
    rfl
  · rw [hchildren, suites, List.map_map, List.sum_eq_foldl_nat]
    simp only [Function.comp_def, suite, Element.children, countP_testCases]
    rfl
  · exact Nat.sub_add_cancel (failures_le_total _ _)
  · have hlevels : (reported d).Nodup := List.Nodup.filter _ (by decide)
    rw [hchildren, map_name_suites hsuites]
    exact List.nodup_flatMap.mpr ⟨fun level _ => nodup_caseNames d level,
      hlevels.imp fun hne => disjoint_caseNames d hne⟩

/-! ## Reading the report -/

theorem name_seen (e : Element) : e.seen.name = e.name := by
  cases e with
  | leaf name attributes text =>
    rw [Element.seen]
    split <;> rfl
  | node name attributes children => rfl

theorem attribute?_seen (name : String) (e : Element) :
    attribute? name e.seen = attribute? name e := by
  rw [attribute?_eq, attribute?_eq, attributes_seen]

theorem hasFailed_seen (test : Element) : hasFailed test.seen = hasFailed test := by
  simp only [hasFailed, children_seen, List.any_map, Function.comp_def, name_seen]

theorem isCase_seen {strict : Bool} {level : Level} {number : Nat} {message : String}
    {test : Element} : IsCase strict level number message test.seen ↔
      IsCase strict level number message test := by
  simp only [isCase_iff, name_seen, attribute?_seen, children_seen, List.map_map,
    Function.comp_def]

theorem isSuite_seen {strict : Bool} {level : Level} {messages : List String} {suite : Element} :
    IsSuite strict level messages suite.seen ↔ IsSuite strict level messages suite := by
  simp only [isSuite_iff, name_seen, attribute?_seen, children_seen, List.forall₂_map_right_iff,
    isCase_seen, List.length_map, List.countP_map, Function.comp_def, hasFailed_seen]

/-- **Nothing is lost where a report is read**: line ends and empty texts count for nothing. -/
theorem accounts_seen {strict : Bool} {d : Diagnostics} {s : Summary} {report : Element} :
    Accounts strict d s report.seen ↔ Accounts strict d s report := by
  simp only [accounts_iff, name_seen, attribute?_seen, children_seen, List.forall₂_map_right_iff,
    isSuite_seen, List.map_map, Function.comp_def, List.length_map, List.countP_map,
    hasFailed_seen, List.flatMap_map, List.map_flatMap]

/-- **A report that has been written accounts for every message.** Its file is that of a report, and
whatever report is read from the file has a suite for each level with messages, a test case for each
message in its place, a failure for each message that is one, the right counts, and a name for each
test case. -/
theorem export_accounts {o : Options} {d : Diagnostics} {disk after : Disk} {path : Path}
    {s : Summary} (h : export_ o d disk path = (after, .ok s)) :
    (∃ report : Element, report.WellNamed ∧
      after.readBytes path = .ok (document report).toUTF8) ∧
    ∀ report : Element, report.WellNamed → after.readBytes path = .ok (document report).toUTF8 →
      Accounts o.strict d s report := by
  obtain ⟨rfl, time, hwritten⟩ := export_ok h
  refine ⟨⟨_, wellNamed_root o time d, hwritten⟩, fun report hnames hfile => ?_⟩
  have hdocument : document report = document (root o time d) :=
    String.toByteArray_inj.mp (Except.ok.inj (hfile.symm.trans hwritten))
  have hseen : report.seen = (root o time d).seen :=
    document_inj hnames (wellNamed_root o time d) hdocument
  rw [← accounts_seen, hseen, accounts_seen]
  exact accounts_root o time d path

/-- An error that is found twice, and a warning. -/
def foundTwice : Diagnostics := ⟨["b", "b"], ["a.yaml (c): b"], []⟩

/-- A run, not strict, that writes them to an empty disk. -/
def reportTwice : Disk × Except Fault Summary :=
  export_ ⟨false, "scelint", .int 0, none⟩ foundTwice ⟨[], []⟩ (Path.ofText "report.xml")

/-- The report about them is there, and counts both. -/
theorem export_accounts_twice :
    export_ ⟨false, "scelint", .int 0, none⟩ foundTwice ⟨[], []⟩ (Path.ofText "report.xml") =
      (reportTwice.1, .ok ⟨"report.xml", 3, 2, 1⟩) ∧
    ∃ report : Element, report.WellNamed ∧
      reportTwice.1.readBytes (Path.ofText "report.xml") = .ok (document report).toUTF8 ∧
      Accounts false foundTwice ⟨"report.xml", 3, 2, 1⟩ report := by
  have hsummary : reportTwice.2.toOption = some ⟨"report.xml", 3, 2, 1⟩ := by decide +kernel
  have hrun : reportTwice = (reportTwice.1, .ok ⟨"report.xml", 3, 2, 1⟩) := by
    generalize reportTwice = run at hsummary ⊢
    obtain ⟨after, outcome⟩ := run
    cases outcome with
    | error e => cases hsummary
    | ok s => rw [Option.some.inj hsummary]
  obtain ⟨⟨report, hnames, hfile⟩, haccounts⟩ := export_accounts hrun
  exact ⟨hrun, report, hnames, hfile, haccounts report hnames hfile⟩

end JUnit

end Compliance
