import Compliance.CommandLine.Options
import Compliance.CommandLine.Terminal
import Compliance.Config
import Compliance.JUnit
import Compliance.Json.Printer
import Compliance.Lint

/-! # A run from the command line

The arguments and the project file give the configuration; the run lints the paths, writes its
findings as text, JSON or a JUnit file, and ends with an exit code of the configuration.

* `exitCode`: the code of a run by its findings.
* `Run.present`: the findings in one of the formats.
* `Run.ofArgs`: the whole run. What was printed before a fault ended it stays printed.
-/

namespace Compliance.CommandLine

/-- What ends a run without an exit code of its own. -/
inductive Crash where
  | missingKey (name : String)
  | wrongType (type : DataType)
  | config (fault : Config.Fault)
  | document (fault : Yaml.Fault)
  | profileName
  | encoding
  | character
  | file (fault : FileFault)

def Crash.message : Crash → String
  | .missingKey name => "the configuration has no " ++ Text.quoted name
  | .wrongType type => "a value of type " ++ type.name ++ " does not fit the configuration"
  | .config (.text fault) => fault.message
  | .config (.value fault) => fault.message
  | .config (.file fault path) => fault.message path
  | .document fault => fault.message
  | .profileName => "the name of a profile is not a text"
  | .encoding => "a message holds half of a surrogate pair"
  | .character => "a message holds a character that XML does not admit"
  | .file fault => fault.message "the output"

/-- How a run ends. -/
inductive Ending where
  | code (value : Tree)
  | status (n : Int)
  | crash (fault : Crash)

/-- What a run leaves behind. -/
structure Outcome where
  disk : Disk
  printed : String
  ending : Ending

/-- The value under a key of a configuration. -/
def setting (t : Tree) (name : String) : Except Crash Tree :=
  match t with
  | .map entries =>
    match Tree.field? entries name with
    | some value => .ok value
    | none => .error (.missingKey name)
  | t => .error (.wrongType t.dataType)

/-- The value at a path of keys. -/
def settingAt (t : Tree) : List String → Except Crash Tree
  | [] => .ok t
  | name :: names => do settingAt (← setting t name) names

/-- The paths to lint; the working directory if none is named. -/
def Options.places (o : Options) : List String := if o.paths.isEmpty then ["."] else o.paths

/-- The configuration file that is named by a text that is not empty. -/
def Options.configPath? (o : Options) : Option Path :=
  (o.config.filter fun s => !s.isEmpty).map Path.ofText

/-- What the options change in the configuration. -/
def overridesOf (o : Options) : Mapping :=
  let output :=
    (if o.verbose then [("verbose", Tree.bool true)] else []) ++
    (o.format.map fun f => ("format", Tree.str f.name)).toList
  let ci := if o.strict then [("strict", Tree.bool true)] else []
  (Config.fields [("output", Config.fields output), ("ci", Config.fields ci)]).entries

/-- The exit code of a run: that for errors if there are any, or warnings where the configuration is
strict. -/
def exitCode (config : Tree) (d : Diagnostics) : Except Crash Tree := do
  let codes ← settingAt config ["ci", "exit_codes"]
  if !d.errors.isEmpty then setting codes "errors"
  else if (← settingAt config ["ci", "strict"]).hasContent && !d.warnings.isEmpty then
    setting codes "errors"
  else setting codes "ok"

def reportJson (r : Lint.Report) : String :=
  Json.layout [("version", .text r.version), ("files", .texts r.files),
    ("profiles", .texts r.profiles), ("errors", .texts r.diagnostics.errors),
    ("warnings", .texts r.diagnostics.warnings), ("notes", .texts r.diagnostics.notes)]

/-- A run that has its configuration and its findings. -/
structure Run where
  disk : Disk
  config : Tree
  output : Option String
  lint : Lint
  diagnostics : Diagnostics
  duration : Scalar
  timestamp : Option String

namespace Run

/-- An output that is named by a text that is not empty. -/
def target? (r : Run) : Option String := r.output.filter fun s => !s.isEmpty

/-- Ends a run with what was printed and changed. -/
def finish (disk : Disk) (printed : String) (ending : Except Crash Tree) : Outcome :=
  match ending with
  | .ok code => ⟨disk, printed, .code code⟩
  | .error e => ⟨disk, printed, .crash e⟩

/-- The report as JSON, printed or written to the output. -/
def presentJson (r : Run) (code : Tree) : Outcome :=
  match r.lint.report? r.diagnostics with
  | none => finish r.disk "" (.error .profileName)
  | some report =>
    let text := reportJson report ++ "\n"
    match r.target? with
    | none => finish r.disk text (.ok code)
    | some path =>
      match r.disk.write (Path.ofText path) text.toUTF8 with
      | .ok disk => finish disk "" (.ok code)
      | .error e => finish r.disk "" (.error (.file e))

/-- The JUnit file of a run that names none. -/
def junitFile : String := "scelint-results.xml"

/-- The fault of a JUnit report as the end of a run. -/
def junitCrash : JUnit.Fault → Crash
  | .duration type => .wrongType type
  | .encoding => .encoding
  | .character => .character
  | .file e => .file e

/-- The findings as a JUnit file. -/
def presentJUnit (r : Run) (code : Tree) : Outcome :=
  match settingAt r.config ["ci", "strict"] with
  | .error e => finish r.disk "" (.error e)
  | .ok strict =>
    let options : JUnit.Options := {
      strict := strict.hasContent
      project := "scelint"
      duration := r.duration
      timestamp := r.timestamp }
    let path := Path.ofText (r.target?.getD junitFile)
    match JUnit.export_ options r.diagnostics r.disk path with
    | (disk, .error e) => finish disk "" (.error (junitCrash e))
    | (disk, .ok s) =>
      let lead := "  JUnit " ++ toString s.total ++ " results, " ++ toString s.failures
        ++ " failures written to "
      finish disk (printed lead s.path) (.ok code)

/-- Messages of a level as lines. -/
def lines (label : String) (messages : List String) : String :=
  String.join (messages.map (printed ("  " ++ label ++ " ")))

/-- The last line: how many files were checked and what was found. -/
def summary (verdict : String) (files : Nat) (d : Diagnostics) : String :=
  "\n  " ++ verdict ++ " Checked " ++ toString files ++ " files: " ++ toString d.errors.length
    ++ " errors, " ++ toString d.warnings.length ++ " warnings, " ++ toString d.notes.length
    ++ " notes\n"

/-- The findings as lines of text. -/
def presentText (r : Run) (code : Tree) : Outcome :=
  let found := lines "ERROR" r.diagnostics.errors ++ lines "WARN" r.diagnostics.warnings
  match settingAt r.config ["output", "verbose"] with
  | .error e => finish r.disk found (.error e)
  | .ok verbose =>
    let found := if verbose.hasContent then found ++ lines "NOTE" r.diagnostics.notes else found
    if r.lint.files.isEmpty then
      finish r.disk (found ++ "  No compliance data found\n") (.ok code)
    else
      match settingAt r.config ["ci", "exit_codes", "ok"] with
      | .error e => finish r.disk found (.error e)
      | .ok good =>
        let verdict := if code.equals good then "OK" else "FAIL"
        finish r.disk (found ++ summary verdict r.lint.files.length r.diagnostics) (.ok code)

/-- The findings in the format of the configuration; any format but JSON and JUnit is text. -/
def present (r : Run) (format code : Tree) : Outcome :=
  if format.equals (.str Format.json.name) then r.presentJson code
  else if format.equals (.str Format.junit.name) then r.presentJUnit code
  else r.presentText code

/-- A fault of loading as the end of a run; a missing path is reported and has an exit code. -/
def loadFailure (d : Disk) (config : Tree) (fault : LintFault) : Outcome :=
  match fault with
  | .setting type => finish d "" (.error (.wrongType type))
  | .load (.document e) => finish d "" (.error (.document e))
  | .load (.directoryName t) => finish d "" (.error (.wrongType t.dataType))
  | .load (.file e _) => finish d "" (.error (.file e))
  | .load (.missing path) =>
    finish d (printed "  ERROR " (LoadFault.missing path).message)
      (settingAt config ["ci", "exit_codes", "input"])

/-- The run that the options ask for. -/
def ofOptions (d : Disk) (duration : Scalar) (timestamp : Option String) (o : Options) :
    Outcome :=
  match Config.effective d (Path.ofText ".") o.configPath? (overridesOf o) with
  | .error e => finish d "" (.error (.config e))
  | .ok config =>
    match settingAt (.map config) ["output", "format"] with
    | .error e => finish d "" (.error e)
    | .ok format =>
      match Lint.start d o.places config with
      | .error e => loadFailure d (.map config) e
      | .ok (lint, messages) =>
        let diagnostics := Diagnostics.ofMessages messages
        match exitCode (.map config) diagnostics with
        | .error e => finish d "" (.error e)
        | .ok code =>
          let r : Run := ⟨d, .map config, o.output, lint, diagnostics, duration, timestamp⟩
          r.present format code

def versionLine : String := "scelint, version " ++ Lint.version ++ "\n"

def helpText : String :=
  "Usage: scelint [OPTIONS] [PATHS]...\n\n" ++
  "  Lint SIMP compliance data in PATHS (default: current directory)\n\n" ++
  "Options:\n" ++
  "  --version                       Show the version and exit.\n" ++
  "  -v, --verbose                   Also print notes\n" ++
  "  -s, --strict                    Treat warnings as errors\n" ++
  "  -f, --output-format [text|json|junit]\n" ++
  "                                  Output format\n" ++
  "  -o, --output PATH               Output file (json/junit)\n" ++
  "  --config PATH                   Config file (default: ./.scelint.yaml)\n" ++
  "  --help                          Show this message and exit.\n"

/-- A named file is there. A name that ends in a slash or in a single dot has to lead to a
directory. -/
def isThere (d : Disk) (name : String) : Bool :=
  let path := Path.ofText name
  if name.isEmpty || d.refuses path then false
  else
    match (Path.pieces name.toList).getLast? with
    | some [] => d.containsDir path
    | some ['.'] => d.containsDir path
    | _ => d.contains path

/-- The directories that a run looks through, on a disk that holds the places which the arguments
name. -/
def searched (d : Disk) (args : List String) : List Path :=
  match readRequest (isThere d) args with
  | .ok (.run o) =>
    match (Config.effective d (Path.ofText ".") (o.configPath?) (overridesOf o)).toOption.bind
        fun config => (Lint.Settings.ofConfig config).toOption with
    | some settings =>
      o.places.flatMap fun place => settings.dataDirs.filterMap fun
        | .str dir => some ((Path.ofText place).join (Path.ofText dir))
        | _ => none
    | none => []
  | _ => []

/-- The exit code of a run whose arguments cannot be understood. -/
def usageStatus : Int := 2

/-- **The run of a list of arguments** on a disk. -/
def ofArgs (d : Disk) (duration : Scalar) (timestamp : Option String) (args : List String) :
    Outcome :=
  match readRequest (isThere d) args with
  | .error _ => ⟨d, "", .status usageStatus⟩
  | .ok .version => ⟨d, versionLine, .status 0⟩
  | .ok .help => ⟨d, helpText, .status 0⟩
  | .ok (.run o) => ofOptions d duration timestamp o

end Run

/-- The exit status of a code from the configuration, and what is printed with it. A null is
success; anything but an integer is printed and is a failure. -/
def exitStatus (code : Tree) : Int × String :=
  match code with
  | .null => (0, "")
  | .bool b => (if b then 1 else 0, "")
  | .int n => (n, "")
  | .scalar s => (1, s.text ++ "\n")
  | t => (1, t.render ++ "\n")

end Compliance.CommandLine
