import Compliance.Scalar

/-! # Document trees

A document is a tree of mappings and sequences over scalars; the keys of a mapping are scalars and
keep their order.

* `DataType` tells more apart than `Kind`: dates and date-times are both timestamps, and a foreign
  value has a type and no kind.
* `Tree.check`: the first node of a foreign type, each key before its value, depth first.
* `Tree.isSet`, `Tree.hasContent`: two notions of presence. Only null and false are not set; zero,
  the empty text and empty collections have no content either.
-/

namespace Compliance

/-- A value of compliance data. -/
inductive Tree where
  | scalar (s : Scalar)
  | seq (items : List Tree)
  | map (entries : List (Scalar × Tree))
deriving Repr, Inhabited

/-- The entries of a mapping in order. -/
abbrev Mapping := Table Scalar Tree

/-- The kinds of node that a document may hold. -/
inductive Kind where
  | mapping
  | sequence
  | string
  | integer
  | float
  | boolean
  | timestamp
  | null
deriving DecidableEq, Repr

def Kind.name : Kind → String
  | .mapping => "Mapping"
  | .sequence => "Sequence"
  | .string => "String"
  | .integer => "Integer"
  | .float => "Float"
  | .boolean => "Boolean"
  | .timestamp => "Timestamp"
  | .null => "Null"

/-- The types of value, of which a kind may have two or, for foreign types, none. -/
inductive DataType where
  | mapping
  | sequence
  | string
  | integer
  | float
  | boolean
  | date
  | datetime
  | null
  | foreign (f : Foreign)
deriving DecidableEq, Repr

/-- The name of a type in messages about values of the wrong type. -/
def DataType.name : DataType → String
  | .mapping => "dict"
  | .sequence => "list"
  | .string => "str"
  | .integer => "int"
  | .float => "float"
  | .boolean => "bool"
  | .date => "datetime.date"
  | .datetime => "datetime.datetime"
  | .null => "NoneType"
  | .foreign f => f.name

/-- A node was not of the kind that its place demands. -/
inductive KindFault where
  | unsupported (f : Foreign)
  | mismatch (what : String) (expected actual : Kind)
deriving DecidableEq, Repr

def KindFault.message : KindFault → String
  | .unsupported f => "unsupported node type " ++ f.name
  | .mismatch what expected actual =>
    let label := if what.isEmpty then "" else what ++ ": "
    label ++ "expected " ++ expected.name ++ ", got " ++ actual.name

def DataType.kind? : DataType → Except KindFault Kind
  | .mapping => .ok .mapping
  | .sequence => .ok .sequence
  | .string => .ok .string
  | .integer => .ok .integer
  | .float => .ok .float
  | .boolean => .ok .boolean
  | .date => .ok .timestamp
  | .datetime => .ok .timestamp
  | .null => .ok .null
  | .foreign f => .error (.unsupported f)

namespace Scalar

def dataType : Scalar → DataType
  | .null => .null
  | .bool _ => .boolean
  | .int _ => .integer
  | .float _ => .float
  | .str _ => .string
  | .date _ => .date
  | .datetime _ => .datetime
  | .foreign f => .foreign f

def kind? (s : Scalar) : Except KindFault Kind := s.dataType.kind?

/-- Neither null, false, zero, an empty text nor an empty collection. -/
def hasContent : Scalar → Bool
  | .null => false
  | .bool b => b
  | .int n => n != 0
  | .float x => !x.isZero
  | .str s => !s.isEmpty
  | .date _ => true
  | .datetime _ => true
  | .foreign f => f.hasContent

end Scalar

namespace Tree

@[match_pattern] abbrev null : Tree := .scalar .null

@[match_pattern] abbrev bool (b : Bool) : Tree := .scalar (.bool b)

@[match_pattern] abbrev int (n : Int) : Tree := .scalar (.int n)

@[match_pattern] abbrev str (s : String) : Tree := .scalar (.str s)

@[match_pattern] abbrev foreign (f : Foreign) : Tree := .scalar (.foreign f)

def dataType : Tree → DataType
  | .scalar s => s.dataType
  | .seq _ => .sequence
  | .map _ => .mapping

/-- The kind of a node. Booleans are never integers. -/
def kind? (t : Tree) : Except KindFault Kind := t.dataType.kind?

mutual

/-- Finds the first node, keys included, that is of no kind. -/
def check : Tree → Except KindFault Unit
  | .scalar s => s.kind?.map fun _ => ()
  | .seq items => checkItems items
  | .map entries => checkEntries entries

/-- Finds the first node of a list of trees that is of no kind. -/
def checkItems : List Tree → Except KindFault Unit
  | [] => .ok ()
  | t :: r =>
    match check t with
    | .error e => .error e
    | .ok () => checkItems r

/-- Finds the first node of a list of entries that is of no kind, each key before its value. -/
def checkEntries : List (Scalar × Tree) → Except KindFault Unit
  | [] => .ok ()
  | (k, t) :: r =>
    match k.kind? with
    | .error e => .error e
    | .ok _ =>
      match check t with
      | .error e => .error e
      | .ok () => checkEntries r

end

/-- The entries of a mapping; `what` names the place in the fault of any other node. -/
def asMapping (t : Tree) (what : String) : Except KindFault Mapping :=
  match t with
  | .map entries => .ok entries
  | t =>
    match t.kind? with
    | .error e => .error e
    | .ok actual => .error (.mismatch what .mapping actual)

/-- The entries of a mapping, none of any other node. -/
def entries : Tree → Mapping
  | .map es => es
  | _ => []

/-- The node as a list: null is empty, and any other node but a sequence is a list of one. -/
def asList : Tree → List Tree
  | .null => []
  | .seq items => items
  | t => [t]

/-- Only null and false count as not set; zero and the empty text are set. -/
def isSet : Tree → Bool
  | .null => false
  | .bool false => false
  | _ => true

/-- Neither null, false, zero, an empty text nor an empty collection. -/
def hasContent : Tree → Bool
  | .scalar s => s.hasContent
  | .seq items => !items.isEmpty
  | .map entries => !entries.isEmpty

def isMap : Tree → Bool
  | .map _ => true
  | _ => false

def asText? : Tree → Option String
  | .str s => some s
  | _ => none

/-- The value under a text key of a mapping. -/
def field? (m : Mapping) (name : String) : Option Tree := Table.get? m (.str name)

/-- The mapping under a text key of a mapping, if there is one. -/
def mapField? (m : Mapping) (name : String) : Option Mapping :=
  match field? m name with
  | some (.map es) => some es
  | _ => none

end Tree

end Compliance
