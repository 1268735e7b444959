/-! # Paths

A path is a root and the names behind it. Empty names and single dots in its text mean nothing and
are dropped; a double dot stays, for it goes up from the directory in front of it.

* `Path.ofText`, `Path.text`: reading and writing; the text of the empty path is a single dot.
* `Path.join`: a path behind a directory; an absolute path stands for itself.
* `Path.suffix`: the last dot of the last name and what follows, unless that dot begins or ends it.
* `Path.namesLe`: the order of names by code point, component by component.
-/

namespace Compliance

/-- A path: its root, which is empty for a relative path, and the names from there. -/
structure Path where
  root : String
  names : List String
deriving DecidableEq, Repr

namespace Path

/-- The pieces of a text between slashes. -/
def pieces : List Char → List (List Char)
  | [] => [[]]
  | c :: r =>
    match pieces r with
    | [] => [[c]]
    | p :: ps => if c = '/' then [] :: p :: ps else (c :: p) :: ps

/-- The root of a text: two slashes exactly are a root of their own. -/
def rootOf (cs : List Char) : String :=
  match (cs.takeWhile (· == '/')).length with
  | 0 => ""
  | 2 => "//"
  | _ => "/"

def ofText (s : String) : Path :=
  let names := (pieces s.toList).map String.ofList
  ⟨rootOf s.toList, names.filter fun n => !n.isEmpty && n != "."⟩

def text (p : Path) : String :=
  if p.root.isEmpty && p.names.isEmpty then "." else p.root ++ "/".intercalate p.names

/-- The path `q` as seen from the directory `p`. -/
def join (p q : Path) : Path := if q.root.isEmpty then ⟨p.root, p.names ++ q.names⟩ else q

/-- The directory in which the last name stands. -/
def parent (p : Path) : Path := ⟨p.root, p.names.dropLast⟩

/-- The last name, empty for a root. -/
def name (p : Path) : String := p.names.getLast?.getD ""

/-- The part of a name from its last dot on; empty if the dot is its first or last character. -/
def suffixOf (cs : List Char) : List Char :=
  let tail := (cs.reverse.takeWhile (· != '.')).reverse
  if tail.isEmpty || cs.length ≤ tail.length + 1 then [] else '.' :: tail

/-- What follows the last dot of the last name. -/
def extension (p : Path) : String := String.ofList ((suffixOf p.name.toList).dropWhile (· == '.'))

/-- Names are ordered by code point, the first that differ decide. -/
def namesLe : List String → List String → Bool
  | [], _ => true
  | _ :: _, [] => false
  | a :: as, b :: bs => if a = b then namesLe as bs else decide (a < b)

end Path

end Compliance
