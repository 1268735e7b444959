import Compliance.Files.Path
import Compliance.Table

/-! # Directory trees

A tree of directories over byte contents.

* `Directory.follow`: what a row of names leads to. A double dot goes up from a directory that is
  there, and at the root it leads to the root.
* `Directory.overlong`: the system refuses a name on the way, for it is too long.
* `Directory.filesBelow`: the files at any depth, ordered by their names component by component.
* `Directory.visited`: what is looked at when files are listed.
* `Directory.put`, `Directory.cut`: the changes.
-/

namespace Compliance

inductive Entry where
  | file (bytes : ByteArray)
  | dir (entries : List (String × Entry))

/-- The entries of a directory by name. -/
abbrev Directory := Table String Entry

/-- Why a path cannot be used. -/
inductive FileFault where
  | notFound
  | notDirectory
  | isDirectory
  | alreadyThere
  | nameTooLong
deriving DecidableEq, Repr

namespace Directory

/-- Follows names from the innermost of the directories on the way, outer ones behind it. -/
def follow : List Directory → List String → Except FileFault Entry
  | way, [] => .ok (.dir (way.headD []))
  | way, name :: names =>
    if name = ".." then follow (if way.tail.isEmpty then way else way.tail) names
    else
      match (way.headD []).get? name with
      | none => .error .notFound
      | some (.dir inner) => follow (inner :: way) names
      | some (.file bytes) => if names.isEmpty then .ok (.file bytes) else .error .notDirectory

/-- The number of bytes that a name may have. -/
def nameLimit : Nat := 255

/-- The name is too long for the system. -/
def tooLong (name : String) : Bool := decide (nameLimit < name.utf8ByteSize)

/-- Following names meets one that is too long, in a directory that is there. -/
def overlong : List Directory → List String → Bool
  | _, [] => false
  | way, name :: names =>
    if name = ".." then overlong (if way.tail.isEmpty then way else way.tail) names
    else
      tooLong name ||
        match (way.headD []).get? name with
        | some (.dir inner) => overlong (inner :: way) names
        | _ => false

mutual

/-- The files of an entry, each with the names that lead to it from `here`. -/
def Entry.files (here : List String) : Entry → List (List String)
  | .file _ => [here]
  | .dir entries => entryFiles here entries

/-- The files of a list of entries, each with the names that lead to it from `here`. -/
def entryFiles (here : List String) : List (String × Entry) → List (List String)
  | [] => []
  | (name, e) :: r => Entry.files (here ++ [name]) e ++ entryFiles here r

end

/-- The files at any depth below a directory whose names pass the test, in the order of names. -/
def filesBelow (d : Directory) (test : String → Bool) : List (List String) :=
  ((entryFiles [] d).filter fun names => test (names.getLast?.getD "")).mergeSort Path.namesLe

mutual

/-- What is looked at below an entry whose name passes the test, or does not. -/
def Entry.visited (test : String → Bool) (here : List String) (passes : Bool) :
    Entry → List (List String)
  | .file _ => if passes then [here] else []
  | .dir entries => here :: visited test here entries

/-- The directories at any depth and the files whose names pass the test, each with the names that
lead to it from `here`. -/
def visited (test : String → Bool) (here : List String) :
    List (String × Entry) → List (List String)
  | [] => []
  | (name, e) :: r => Entry.visited test (here ++ [name]) (test name) e ++ visited test here r

end

/-- Names without double dots, for a way along directories that are there. -/
def settle (names : List String) : List String :=
  names.foldl (fun way name => if name = ".." then way.dropLast else way ++ [name]) []

/-- Puts an entry at the names, making the directories on the way. -/
def put (e : Entry) : Directory → List String → Directory
  | d, [] => d
  | d, [name] => d.insert name e
  | d, name :: next :: names =>
    match d.get? name with
    | some (.dir inner) => d.insert name (.dir (put e inner (next :: names)))
    | _ => d.insert name (.dir (put e [] (next :: names)))

/-- Takes the entry at the names away. -/
def cut : Directory → List String → Directory
  | d, [] => d
  | d, [name] => d.erase name
  | d, name :: next :: names =>
    match d.get? name with
    | some (.dir inner) => d.insert name (.dir (cut inner (next :: names)))
    | _ => d

end Directory

end Compliance
