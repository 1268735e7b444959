import Compliance.Diagnostics
import Compliance.Files.Disk
import Compliance.Text.CodePoint
import Compliance.Text.Cut
import Compliance.Text.Digits
import Compliance.Tree.Basic
import Compliance.Xml

/-! # JUnit reports

The diagnostics of a run as test suites: a suite for each level that has messages, and a test case
for each message. Errors are failures, and under `strict` so are warnings.

* `splitSource`: the place that a message is about, and what it says about it.
* `JUnit.suite`, `JUnit.root`: the report as elements.
* `JUnit.summary`: the counts; every message is a test, failed or passed.
* `JUnit.export_`: writes the report. A character that XML does not admit leaves the file as it was.
* `JUnit.exportCodes`: the same for texts that may hold halves of surrogate pairs, of which none may
  come into the report.
-/

namespace Compliance

/-- The source and the text of a message: what stands in front of the first colon, up to its first
parenthesis, and what stands behind the colon. -/
def splitSource (message : String) : String × String :=
  match Text.cut? ": " message with
  | none => ("", message)
  | some (source, text) =>
    match Text.cut? " (" source with
    | none => (source, text)
    | some (front, _) => (front, text)

/-- The source and the text of a message that may hold halves. -/
def splitCodes (message : CodeText) : CodeText × CodeText :=
  match Text.cutList? (CodeText.ofString ": ") message with
  | none => ([], message)
  | some (source, text) =>
    match Text.cutList? (CodeText.ofString " (") source with
    | none => (source, text)
    | some (front, _) => (front, text)

namespace JUnit

structure Options where
  strict : Bool
  project : String
  duration : Scalar
  timestamp : Option String := none

/-- What ends the making of a report. -/
inductive Fault where
  | duration (type : DataType)
  | encoding
  | character
  | file (fault : FileFault)

structure Summary where
  path : String
  total : Nat
  failures : Nat
  passed : Nat
deriving DecidableEq, Repr

/-- Messages of this level count as failures. -/
def fails (strict : Bool) : Level → Bool
  | .error => true
  | .warning => strict
  | .note => false

/-- A level as it begins the name of a test case. -/
def levelTitle : Level → String
  | .error => "ERROR"
  | .warning => "WARNING"
  | .note => "NOTE"

/-- The test case of a message, with its number in the suite. -/
def testCase (failing : Bool) (level : Level) (number : Nat) (message : String) : Xml.Element :=
  let (source, text) := splitSource message
  .node "testcase"
    [("name", levelTitle level ++ "-" ++ Text.padded 3 number ++ ": " ++ text),
      ("classname", if source.isEmpty then level.name else source)]
    (if failing then [.leaf "failure" [("message", message), ("type", level.name)] message] else [])

/-- The test cases of messages, numbered from `number` on. -/
def testCases (failing : Bool) (level : Level) (number : Nat) : List String → List Xml.Element
  | [] => []
  | m :: ms => testCase failing level number m :: testCases failing level (number + 1) ms

def suite (strict : Bool) (level : Level) (messages : List String) : Xml.Element :=
  let failing := fails strict level
  .node "testsuite"
    [("name", level.name), ("tests", toString messages.length),
      ("failures", toString (if failing then messages.length else 0)), ("errors", "0"),
      ("skipped", "0")]
    (testCases failing level 1 messages)

def levels (d : Diagnostics) : List (Level × List String) := d.byLevel.filter fun l => !l.2.isEmpty

def total (d : Diagnostics) : Nat :=
  ((levels d).map fun l => l.2.length).foldl (· + ·) 0

def failures (strict : Bool) (d : Diagnostics) : Nat :=
  ((levels d).map fun l => if fails strict l.1 then l.2.length else 0).foldl (· + ·) 0

/-- The time in a report, in seconds to two places; none if no time has passed. -/
def timeText? : Scalar → Except Fault (Option String)
  | .int n => .ok (if 0 < n then some (toString n) else none)
  | .bool b => .ok (if b then some "1" else none)
  | .float x =>
    .ok (if x.isNaN || x.isZero || x.negative then none else some (x.roundPlaces 2).text)
  | s => .error (.duration s.dataType)

/-- The report as an element. -/
def root (o : Options) (time : Option String) (d : Diagnostics) : Xml.Element :=
  .node "testsuites"
    ([("name", o.project)] ++
      (o.timestamp.map fun t => ("timestamp", t)).toList ++
      [("tests", toString (total d)), ("failures", toString (failures o.strict d)),
        ("errors", "0")] ++
      (time.map fun t => ("time", t)).toList)
    ((levels d).map fun l => suite o.strict l.1 l.2)

/-- The counts of a report that is written to a path. -/
def summary (strict : Bool) (d : Diagnostics) (path : Path) : Summary :=
  ⟨path.text, total d, failures strict d, total d - failures strict d⟩

/-- Makes the directories of a path and hands the time of the report on. -/
def prepared (o : Options) (disk : Disk) (path : Path)
    (next : Disk → Option String → Disk × Except Fault Summary) : Disk × Except Fault Summary :=
  match timeText? o.duration with
  | .error e => (disk, .error e)
  | .ok time =>
    match disk.makeAll path.parent with
    | .error e => (disk, .error (.file e))
    | .ok disk => next disk time

/-- Writes the report with a time to a path whose directories are there. -/
def writeReport (o : Options) (d : Diagnostics) (path : Path) (disk : Disk)
    (time : Option String) : Disk × Except Fault Summary :=
  let report := root o time d
  if report.isWellFormed then
    match disk.write path (Xml.document report).toUTF8 with
    | .error e => (disk, .error (.file e))
    | .ok disk => (disk, .ok (summary o.strict d path))
  else (disk, .error .character)

/-- **Writes the report** and makes the directories of its path. -/
def export_ (o : Options) (d : Diagnostics) (disk : Disk) (path : Path) :
    Disk × Except Fault Summary := prepared o disk path (writeReport o d path)

/-! ## Texts with halves -/

/-- A project and messages by their levels, in texts that may hold halves. -/
structure CodeFindings where
  project : CodeText
  messages : Level → List CodeText

namespace CodeFindings

/-- The messages with a replacement character for each half. -/
def readable (f : CodeFindings) : Diagnostics :=
  let texts := fun level => (f.messages level).map CodeText.readable
  ⟨texts .error, texts .warning, texts .note⟩

/-- The parts of a message that come into a report: the whole if it is a failure, else the source
and the text. -/
def partsOf (failing : Bool) (message : CodeText) : List CodeText :=
  if failing then [message] else [(splitCodes message).1, (splitCodes message).2]

/-- All parts of a report that are not the same for any findings. -/
def parts (strict : Bool) (f : CodeFindings) : List CodeText :=
  f.project :: [Level.error, .warning, .note].flatMap fun level =>
    (f.messages level).flatMap (partsOf (fails strict level))

end CodeFindings

/-- **Writes the report of texts that may hold halves.** Halves that would come into the report
cannot be encoded; others do not matter. -/
def exportCodes (o : Options) (f : CodeFindings) (disk : Disk) (path : Path) :
    Disk × Except Fault Summary :=
  prepared o disk path fun disk time =>
    if (f.parts o.strict).any CodeText.hasHalf then (disk, .error .encoding)
    else writeReport { o with project := f.project.readable } f.readable path disk time

end JUnit

end Compliance
