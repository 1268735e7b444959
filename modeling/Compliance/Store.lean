import Compliance.Corpus
import Compliance.Files.Disk
import Compliance.Json.Reader
import Compliance.Yaml.Reader

/-! # The document store

The store finds the data files of modules and single files, reads them and remembers what it read.

* `Store.judge`: what a file holds at this moment, or why it holds no document.
* `Store.parse`: the remembered document of a file, or what the file holds now. Documents are
  remembered by the spelling of the file's name; a null and a failure never are.
* `Store.discover`: the data files below the data directories of a module, by directory, then by
  type, then by name.
* `Store.bars`: a data directory that the system refuses to look into, which ends discovery.
* `Store.load`: the documents of all paths in order of discovery. A path that is neither a file nor
  a directory ends it.
-/

namespace Compliance

inductive FileType where
  | yaml
  | json
deriving DecidableEq, Repr

namespace FileType

/-- The name of a type, which is also its file extension. -/
def name : FileType → String
  | .yaml => "yaml"
  | .json => "json"

def ofName? (s : String) : Option FileType :=
  if s = "yaml" then some .yaml else if s = "json" then some .json else none

end FileType

/-- Why a file holds no document. -/
inductive DocumentFault where
  | read (fault : ReadFault)
  | json (fault : Json.Fault) (text : List Char)
  | yaml (fault : Yaml.Fault)
  | kind (fault : KindFault)

def DocumentFault.message : DocumentFault → String
  | .read fault => fault.message
  | .json fault text => fault.message text
  | .yaml fault => fault.message
  | .kind fault => fault.message

/-- Code points from here on are no numbers of a character at all. -/
def Yaml.codeLimit : Nat := Nat.pow 2 31

/-- A node that does not fit its explicit tag ends the run, and so do an escape far beyond all
characters, a number with more places than floating point has room for and a value that holds
itself; other faults are reported. -/
def Yaml.Fault.endsRun : Yaml.Fault → Bool
  | .codePoint n => decide (codeLimit ≤ n)
  | .emptyNumber => true
  | .boolean _ => true
  | .timestamp _ => true
  | .timestampCollection => true
  | .overflow => true
  | .recursive => true
  | _ => false

/-- What ends loading. -/
inductive LoadFault where
  | missing (path : String)
  | document (fault : Yaml.Fault)
  | directoryName (value : Tree)
  | file (fault : FileFault) (path : String)

def LoadFault.message : LoadFault → String
  | .missing path => "Can't find path '" ++ path ++ "'"
  | .document fault => fault.message
  | .directoryName value => "unsupported directory name " ++ value.dataType.name
  | .file fault path => fault.message path

/-- Where data files are looked for, which types count, and the documents read so far. -/
structure Store where
  dataDirs : List Tree
  fileTypes : List FileType
  remembered : Table String Tree := []

/-- What a step of the store leaves: the store, what there is to report, and the result. -/
structure Store.Step (α : Type) where
  store : Store
  messages : List Message
  outcome : Except LoadFault α

namespace Store

/-- The data directories where nothing else is said. -/
def defaultDataDirs : List String := ["SIMP/compliance_profiles", "simp/compliance_profiles"]

/-- The file types where nothing else is said. -/
def defaultFileTypes : List String := [FileType.yaml.name, FileType.json.name]

/-- A store that has read nothing. -/
def new (dataDirs : List Tree) (fileTypes : List FileType) : Store := { dataDirs, fileTypes }

/-- The type of a file by its name, if the type counts. -/
def fileType? (s : Store) (file : String) : Option FileType :=
  (FileType.ofName? (Path.ofText file).extension).filter fun t => s.fileTypes.contains t

/-- The value of a text of a type. -/
def valueOf (type : FileType) (text : List Char) : Except DocumentFault Tree :=
  match type with
  | .yaml => (Yaml.read text).mapError .yaml
  | .json => (Json.read text).mapError fun e => .json e text

/-- What a file of a type holds now. -/
def judge (d : Disk) (type : FileType) (file : String) : Except DocumentFault Tree := do
  let text ← (d.readText (Path.ofText file)).mapError .read
  let value ← valueOf type text
  value.check.mapError .kind
  return value

/-- **The document of a file**; null if it has none. -/
def parse (s : Store) (d : Disk) (file : String) : Step Tree :=
  match s.remembered.get? file with
  | some value => ⟨s, [], .ok value⟩
  | none =>
    match s.fileType? file with
    | none => ⟨s, [.error (file ++ ": Failed to determine file type")], .ok .null⟩
    | some type =>
      match judge d type file with
      | .ok .null => ⟨s, [], .ok .null⟩
      | .ok value => ⟨{ s with remembered := s.remembered.insert file value }, [], .ok value⟩
      | .error (.yaml fault) =>
        if fault.endsRun then ⟨s, [], .error (.document fault)⟩
        else ⟨s, [.error (file ++ ": Failed to parse file: " ++ fault.message)], .ok .null⟩
      | .error fault =>
        ⟨s, [.error (file ++ ": Failed to parse file: " ++ fault.message)], .ok .null⟩

/-- The name ends in a point and the name of the type. -/
def isNameOf (type : FileType) (name : String) : Bool :=
  ('.' :: type.name.toList).isSuffixOf name.toList

/-- The data files of a type below a directory of a path. -/
def filesIn (d : Disk) (base : Path) (type : FileType) : List String :=
  match d.find base with
  | .ok (.dir entries) =>
    (Directory.filesBelow entries (isNameOf type)).map fun names =>
      (base.join ⟨"", names⟩).text
  | _ => []

/-- The data files below one data directory of a module. -/
def filesUnder (s : Store) (d : Disk) (module dataDir : Path) : List String :=
  s.fileTypes.flatMap (filesIn d (module.join dataDir))

/-- The directory cannot be looked into for files of the types: the system refuses its path, or that
of something on the way through it. -/
def bars (d : Disk) (types : List FileType) (base : Path) : Bool :=
  d.refuses base ||
    match d.find base with
    | .ok (.dir entries) =>
      types.any fun type => (Directory.visited (isNameOf type) [] entries).any fun names =>
        decide (Disk.pathLimit < (base.join ⟨"", names⟩).text.utf8ByteSize)
    | _ => false

/-- The data files of a module in order. -/
def discover (s : Store) (d : Disk) (module : Path) : Except LoadFault (List String) :=
  go s.dataDirs
where
  go : List Tree → Except LoadFault (List String)
    | [] => .ok []
    | .str dir :: r =>
      let base := module.join (Path.ofText dir)
      if bars d s.fileTypes base then .error (.file .nameTooLong base.text)
      else (go r).map (s.filesUnder d module (Path.ofText dir) ++ ·)
    | value :: _ => .error (.directoryName value)

/-- The files that a path stands for: itself as it is spelled, or the data files of a module. -/
def candidates (s : Store) (d : Disk) (path : String) : Except LoadFault (List String) :=
  if d.refuses (Path.ofText path) then .error (.file .nameTooLong (Path.ofText path).text)
  else
    match d.find (Path.ofText path) with
    | .ok (.dir _) => s.discover d (Path.ofText path)
    | .ok (.file _) => .ok [path]
    | .error _ => .error (.missing path)

/-- Adds the documents of files to those that were loaded; files without one are left out. -/
def loadFiles (d : Disk) (s : Store) (done : Corpus) : List String → Step Corpus
  | [] => ⟨s, [], .ok done⟩
  | file :: files =>
    let step := s.parse d file
    match step.outcome with
    | .error e => ⟨step.store, step.messages, .error e⟩
    | .ok value =>
      let rest := loadFiles d step.store
        (match value with | .null => done | value => done.insert file value) files
      { rest with messages := step.messages ++ rest.messages }

/-- Adds the documents of paths to those that were loaded. -/
def loadPaths (d : Disk) (s : Store) (done : Corpus) : List String → Step Corpus
  | [] => ⟨s, [], .ok done⟩
  | path :: paths =>
    match s.candidates d path with
    | .error e => ⟨s, [], .error e⟩
    | .ok files =>
      let step := loadFiles d s done files
      match step.outcome with
      | .error e => ⟨step.store, step.messages, .error e⟩
      | .ok done =>
        let rest := loadPaths d step.store done paths
        { rest with messages := step.messages ++ rest.messages }

/-- **The documents of all paths** in order of discovery. -/
def load (s : Store) (d : Disk) (paths : List String) : Step Corpus := loadPaths d s [] paths

end Store

end Compliance
