import Compliance.Hiera.Compiler
import Compliance.Store

/-! # Linting compliance data

A lint run loads the data of some paths, checks every document and the merged view against the
schema, and compiles the Hiera data of every profile, without a context and under every context that
the confine clauses give.

* `Lint.Settings.ofConfig`: what a configuration says about a run.
* `Lint.start`: the run, with what there was to report.
* `Lint.profileMessages`: the messages of one profile; a fault ends them with an error and leaves
  other profiles alone.
* `Lint.report`: the files, profiles and messages of a run.

Nothing but the messages changes when a run is asked again: every question is answered from the
documents alone.
-/

namespace Compliance

/-- What ends a run before it starts. -/
inductive LintFault where
  | setting (value : DataType)
  | load (fault : LoadFault)

namespace Lint

/-- Where a run looks for data and how it merges. -/
structure Settings where
  dataDirs : List Tree
  fileTypes : List FileType
  knockout : Knockout

/-- The members of a collection: the items of a sequence, the keys of a mapping, the characters of a
text, the bytes of bytes, and the texts of a set that holds nothing else. -/
def members : Tree → Except LintFault (List Tree)
  | .seq items => .ok items
  | .map entries => .ok (entries.map fun e => .scalar e.1)
  | .str s => .ok (s.toList.map fun c => .str (String.ofList [c]))
  | .foreign (.set texts 0) => .ok (texts.map .str)
  | .foreign (.bytes content) => .ok (content.map fun b => .int b.toNat)
  | .foreign (.tuple 0) => .ok []
  | t => .error (.setting t.dataType)

/-- The file types that a list of names gives; other scalars give none. -/
def fileTypesOf : List Tree → Except LintFault (List FileType)
  | [] => .ok []
  | .scalar (.foreign (.set texts others)) :: _ => .error (.setting (.foreign (.set texts others)))
  | .scalar (.str s) :: r => (fileTypesOf r).map ((FileType.ofName? s).toList ++ ·)
  | .scalar _ :: r => fileTypesOf r
  | t :: _ => .error (.setting t.dataType)

/-- The settings of a configuration; what it leaves out is as by default. -/
def Settings.ofConfig (config : Mapping) : Except LintFault Settings := do
  let setting := fun name => Tree.field? config name
  let dirs ← members ((setting "data_dirs").getD (.seq (Store.defaultDataDirs.map .str)))
  let types ← members ((setting "file_types").getD (.seq (Store.defaultFileTypes.map .str)))
  return {
    dataDirs := dirs
    fileTypes := ← fileTypesOf types
    knockout := Knockout.ofTree ((setting "knockout_prefix").getD (.str Knockout.defaultText)) }

end Lint

/-- The documents of a run, and what compiling them depends on. -/
structure Lint where
  corpus : Corpus
  knockout : Knockout

namespace Lint

def compiler (l : Lint) : Compiler := { corpus := l.corpus, knockout := l.knockout }

/-- The merged view, if there are documents. -/
def merged? (l : Lint) : Option Mapping := if l.corpus.isEmpty then none else some l.corpus.merged

def files (l : Lint) : List String := l.corpus.keys

/-- The profiles of the merged view, if it has any section of that name. -/
def profiles (l : Lint) : Option (List Scalar) :=
  (l.merged?.bind fun m => Tree.mapField? m "profiles").map Table.keys

/-- The contexts to compile under. -/
def contexts (l : Lint) : List Mapping :=
  expandConfines (collectConfines (.map (l.merged?.getD [])))

/-- The class parameters that a profile sets under a context. -/
def compile (l : Lint) (profile : Scalar) (context : Tree) :
    Logged CompileFault (Table String Tree) :=
  l.compiler.compile profile context

/-- Compiles a profile without a context and under every context, until there is a fault. -/
def compileAll (l : Lint) (profile : Scalar) : Logged CompileFault Unit :=
  Logged.each (.null :: l.contexts.map .map) fun context =>
    (l.compile profile context).andThen fun _ => .done ()

def profileMessages (l : Lint) (profile : Scalar) : List Message :=
  let run := l.compileAll profile
  match run.outcome with
  | .ok () => run.messages
  | .error e =>
    run.messages ++ [.error (profile.text ++ ": failed to compile Hiera data: " ++ e.message)]

/-- The messages of all profiles in order. -/
def validate (l : Lint) : List Message :=
  match l.profiles with
  | none => [.note "No profiles found, unable to validate Hiera data"]
  | some names => names.flatMap l.profileMessages

/-- What is written out where nothing else is set. The depth is that of a stack of a thousand calls,
of which a collection takes three, and a run some forty before it comes to a rule. -/
def standardLimits : Limits := ⟨some 4300, some 320⟩

/-- The messages of the schema rules: about every document, then about the merged view. -/
def schemaMessages (l : Lint) : List Message :=
  l.corpus.flatMap (fun (file, document) => lintDocument file document standardLimits) ++
    lintDocument mergedName (.map l.corpus.merged) standardLimits

/-- Everything there is to report about the documents; nothing if there are none. -/
def messages (l : Lint) : List Message :=
  if l.corpus.isEmpty then [] else l.schemaMessages ++ l.validate

/-- **A run over some paths**, with what there was to report. -/
def start (d : Disk) (paths : List String) (config : Mapping) :
    Except LintFault (Lint × List Message) := do
  let settings ← Settings.ofConfig config
  let step := (Store.new settings.dataDirs settings.fileTypes).load d paths
  match step.outcome with
  | .error e => throw (.load e)
  | .ok corpus =>
    let l : Lint := ⟨corpus, settings.knockout⟩
    return (l, step.messages ++ l.messages)

def version : String := "1.0.0"

/-- What a run found. -/
structure Report where
  version : String
  files : List String
  profiles : List String
  diagnostics : Diagnostics

/-- The text of a profile name that is one. -/
def nameText? : Scalar → Option String
  | .str s => some s
  | _ => none

/-- The report of a run with the messages so far; none if a profile's name is not a text. -/
def report? (l : Lint) (d : Diagnostics) : Option Report := do
  let names ← (l.profiles.getD []).mapM nameText?
  return ⟨version, l.files, names, d⟩

end Lint

end Compliance
