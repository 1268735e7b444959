import Compliance.Files.Directory
import Compliance.Text.Quoted
import Compliance.Text.Utf8

/-! # Disks

What a run can see of the file system: the tree from the root, and the working directory in it, from
which relative paths lead.

* `Disk.find`: what a path leads to. `Disk.refuses`: the system does not even look, because the path
  or a name in it is too long.
* `Disk.write`, `Disk.makeAll`, `Disk.remove`: the changes.
* `Disk.readText`: the text of a file with unified line ends.
-/

namespace Compliance

/-- The system's words for a fault about a path. -/
def FileFault.message (e : FileFault) (path : String) : String :=
  let what := match e with
    | .notFound => "[Errno 2] No such file or directory: "
    | .notDirectory => "[Errno 20] Not a directory: "
    | .isDirectory => "[Errno 21] Is a directory: "
    | .alreadyThere => "[Errno 17] File exists: "
    | .nameTooLong => "[Errno 36] File name too long: "
  what ++ Text.quoted path

/-- Why a file gives no text. -/
inductive ReadFault where
  | file (fault : FileFault) (path : String)
  | text (fault : Utf8.Fault)

def ReadFault.message : ReadFault → String
  | .file fault path => fault.message path
  | .text fault => fault.message

/-- The tree from the root, and the names that lead from there to the working directory. -/
structure Disk where
  root : Directory
  place : List String

namespace Disk

/-- The names that lead to a path from the root. -/
def full (d : Disk) (p : Path) : List String :=
  if p.root.isEmpty then d.place ++ p.names else p.names

/-- What a path leads to. -/
def find (d : Disk) (p : Path) : Except FileFault Entry := Directory.follow [d.root] (d.full p)

/-- The number of bytes that the text of a path may have. -/
def pathLimit : Nat := 4095

/-- The path is too long for the system, or a name that it meets on the way is. -/
@[irreducible] def refuses (d : Disk) (p : Path) : Bool :=
  decide (pathLimit < p.text.utf8ByteSize) || Directory.overlong [d.root] (d.full p)

/-- The path leads somewhere. -/
def contains (d : Disk) (p : Path) : Bool := (d.find p).toOption.isSome

def containsDir (d : Disk) (p : Path) : Bool :=
  match d.find p with
  | .ok (.dir _) => true
  | _ => false

/-- Puts an entry at a path along directories that are there; others are made. -/
def putAt (d : Disk) (p : Path) (e : Entry) : Disk :=
  { d with root := Directory.put e d.root (Directory.settle (d.full p)) }

/-- Takes the entry at a path away. -/
def remove (d : Disk) (p : Path) : Disk :=
  { d with root := Directory.cut d.root (Directory.settle (d.full p)) }

/-- Writes a file; its directory has to be there. -/
def write (d : Disk) (p : Path) (bytes : ByteArray) : Except FileFault Disk :=
  if d.refuses p then .error .nameTooLong
  else
    match d.find p with
    | .ok (.dir _) => .error .isDirectory
    | .ok (.file _) => .ok (d.putAt p (.file bytes))
    | .error .notFound =>
      match d.find p.parent with
      | .ok (.dir _) => .ok (d.putAt p (.file bytes))
      | .ok (.file _) => .error .notDirectory
      | .error e => .error e
    | .error e => .error e

/-- Makes the directories of a path that are missing, outer ones first. -/
def makeFrom (d : Disk) (root : String) (done : List String) :
    List String → Except FileFault Disk
  | [] => .ok d
  | name :: names =>
    let here : Path := ⟨root, done ++ [name]⟩
    if d.refuses here then .error .nameTooLong
    else
      match d.find here with
      | .ok (.dir _) => makeFrom d root (done ++ [name]) names
      | .ok (.file _) => .error (if names.isEmpty then .alreadyThere else .notDirectory)
      | .error .notFound => makeFrom (d.putAt here (.dir [])) root (done ++ [name]) names
      | .error e => .error e

/-- Makes a directory and the directories above it, as far as they are missing. -/
def makeAll (d : Disk) (p : Path) : Except FileFault Disk :=
  if d.refuses p then .error .nameTooLong else makeFrom d p.root [] p.names

def readBytes (d : Disk) (p : Path) : Except FileFault ByteArray :=
  if d.refuses p then .error .nameTooLong
  else
    match d.find p with
    | .ok (.file bytes) => .ok bytes
    | .ok (.dir _) => .error .isDirectory
    | .error e => .error e

/-- The characters of a file, every line ending in a line feed. -/
def readText (d : Disk) (p : Path) : Except ReadFault (List Char) :=
  match d.readBytes p with
  | .error e => .error (.file e p.text)
  | .ok bytes =>
    match Utf8.decode bytes.toList with
    | .error e => .error (.text e)
    | .ok cs => .ok (Text.unifyLines cs)

end Disk

end Compliance
