import Compliance.Merge
import Compliance.Store

/-! # Configuration

The configuration of a run is laid down in three layers: defaults, the project file, and what the
caller overrides. Mappings merge and everything else is replaced.

* `Config.load`: the project file as a mapping. A file that is missing, cannot be opened, is no YAML
  or holds no mapping counts as empty; bytes that are no text, values that cannot be made and a path
  that the system refuses are faults.
* `Config.effective`: the three layers laid over one another.
-/

namespace Compliance.Config

def fileName : String := ".scelint.yaml"

/-- A mapping with text keys. -/
def fields (pairs : List (String × Tree)) : Tree := .map (pairs.map fun (k, v) => (.str k, v))

/-- A sequence of texts. -/
def texts (items : List String) : Tree := .seq (items.map .str)

/-- The first layer. -/
def defaults : Mapping :=
  (fields [
    ("data_dirs", texts Store.defaultDataDirs),
    ("file_types", texts Store.defaultFileTypes),
    ("knockout_prefix", .str Knockout.defaultText),
    ("output", fields [("format", .str "text"), ("verbose", .bool false)]),
    ("ci", fields [
      ("strict", .bool false),
      ("exit_codes", fields [("ok", .int 0), ("errors", .int 1), ("input", .int 2)])])]).entries

/-- Why a project file stops a run. -/
inductive Fault where
  | text (fault : Utf8.Fault)
  | value (fault : Yaml.Fault)
  | file (fault : FileFault) (path : String)

/-- The mapping that a text holds; a text that is no YAML, and any other value, holds an empty
one. -/
def ofText (text : List Char) : Except Fault Mapping :=
  match Yaml.outline text with
  | .ok value => .ok value.entries
  | .error .malformed => .ok []
  | .error fault => .error (.value fault)

/-- The mapping in the file at a path, which may be missing. -/
def loadFrom (d : Disk) (path : Path) : Except Fault Mapping :=
  match d.readBytes path with
  | .error .nameTooLong => .error (.file .nameTooLong path.text)
  | .error _ => .ok []
  | .ok bytes =>
    match Utf8.decodeMarked bytes.toList with
    | .error fault => .error (.text fault)
    | .ok cs => ofText (Text.unifyLines cs)

/-- The project file of a directory, or the file that is named in its place. -/
def load (d : Disk) (project : Path) (named : Option Path) : Except Fault Mapping :=
  loadFrom d (named.getD (project.join (Path.ofText fileName)))

/-- The layers over the defaults. -/
def layered (project overrides : Mapping) : Mapping :=
  deepMerge .replace (deepMerge .replace defaults project) overrides

/-- **The configuration of a run.** -/
def effective (d : Disk) (project : Path) (named : Option Path) (overrides : Mapping) :
    Except Fault Mapping :=
  (load d project named).map fun m => layered m overrides

end Compliance.Config
