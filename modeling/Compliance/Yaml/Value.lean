import Compliance.Text.Cut
import Compliance.Tree.Basic
import Compliance.Yaml.Node
import Compliance.Yaml.Number

/-! # The value of a node

A node with a standard tag has a value: scalars by their texts, mappings with the entries of the
mappings that they merge in front of their own. Sets, bytes and pairs have values too, of types that
a document may not hold.

Of several faults in a node the one nearest to the root counts, and of equally deep ones the first:
values are made level by level. A collection shows its own faults one level below the place where it
stands.

* `Node.buildPairs`: the entries that a mapping merges, and its own.
* `Node.outline`: the value of a node, or its first fault.
-/

namespace Compliance.Yaml.Node

/-- A fault and the level at which it shows. -/
abbrev Leveled (α : Type) := Except (Nat × Fault) α

/-- Both results, or the fault that shows first. -/
def both {α β γ : Type} (f : α → β → γ) (x : Leveled α) (y : Leveled β) : Leveled γ :=
  match x, y with
  | .ok a, .ok b => .ok (f a b)
  | .error e, .ok _ => .error e
  | .ok _, .error e => .error e
  | .error e, .error e' => if e'.1 < e.1 then .error e' else .error e

/-- A result whose faults show at a level. -/
def atLevel {α : Type} (level : Nat) (x : Except Fault α) : Leveled α :=
  x.mapError fun e => (level, e)

/-- The text of a node that has to be a scalar; a mapping with a default value has the text of
that. -/
def text : Node → Except Fault String
  | .scalar _ s => .ok s
  | .seq _ _ => .error .malformed
  | .map _ pairs => textIn pairs
  | .loop _ => .error .recursive
where
  /-- The text of the default value. -/
  textIn : List (Node × Node) → Except Fault String
    | [] => .error .malformed
    | (k, v) :: r => if k.tag = standardTag "value" then text v else textIn r

mutual

/-- Every merge key of a mapping brings in mappings. -/
def merges : List (Node × Node) → Bool
  | [] => true
  | (k, v) :: r => (k.tag != standardTag "merge" || isMergeable v) && merges r

/-- The node is a mapping, or a sequence of mappings, whose merge keys bring in mappings too. -/
def isMergeable : Node → Bool
  | .map _ pairs => merges pairs
  | .seq _ items => areMergeable items
  | .scalar _ _ => false
  | .loop _ => true

def areMergeable : List Node → Bool
  | [] => true
  | .map _ pairs :: r => merges pairs && areMergeable r
  | .loop _ :: r => areMergeable r
  | _ :: _ => false

end

/-- The value of a digit of base 64. -/
def digit64? (c : Char) : Option Nat :=
  if c.isUpper then some (c.toNat - 'A'.toNat)
  else if c.isLower then some (c.toNat - 'a'.toNat + 26)
  else if c.isDigit then some (c.toNat - '0'.toNat + 52)
  else if c = '+' then some 62
  else if c = '/' then some 63
  else none

/-- The digits of base 64 text, if it is complete: groups of four, the last one filled up by signs.
Other characters count for nothing, nor does what comes after the signs. -/
def digits64? (place pads : Nat) : List Char → Option (List Nat)
  | [] => if place = 0 then some [] else none
  | '=' :: r =>
    if 2 ≤ place && 4 ≤ place + pads + 1 then some []
    else digits64? place (if 2 ≤ place then pads + 1 else pads) r
  | c :: r =>
    match digit64? c with
    | some n => (digits64? ((place + 1) % 4) 0 r).map (n :: ·)
    | none => digits64? place pads r

/-- The bytes that digits of base 64 stand for. -/
def bytes64 : List Nat → List UInt8
  | a :: b :: c :: d :: r => ofBits (a * 4 + b / 16) :: ofBits (b * 16 + c / 4) ::
      ofBits (c * 64 + d) :: bytes64 r
  | [a, b, c] => [ofBits (a * 4 + b / 16), ofBits (b * 16 + c / 4)]
  | [a, b] => [ofBits (a * 4 + b / 16)]
  | _ => []
where
  /-- The last eight bits. -/
  ofBits (n : Nat) : UInt8 := UInt8.ofNat n

/-- Digits as a number. -/
def fieldOf (cs : List Char) : Nat := Decimal.valueOf cs

/-- The date or date-time of the fields of a timestamp. -/
def stampValue (s : Plain.Stamp) : Except CalendarFault Scalar :=
  match s.clock with
  | none => (Date.of? (fieldOf s.year) (fieldOf s.month) (fieldOf s.day)).map .date
  | some (hours, minutes, seconds, fraction) =>
    let micros := fieldOf ((fraction ++ List.replicate 6 '0').take 6)
    let offset : Option Int :=
      match s.zone with
      | none => none
      | some none => some 0
      | some (some (sign, h, m)) =>
        let n : Nat := fieldOf h * 3600 + fieldOf m * 60
        some (if sign = '-' then -(n : Int) else n)
    (DateTime.of? (fieldOf s.year) (fieldOf s.month) (fieldOf s.day) (fieldOf hours)
      (fieldOf minutes) (fieldOf seconds) micros offset).map .datetime

/-- The truth value of a text, whatever its case. -/
def boolOf (s : String) : Except Fault Bool :=
  let lower := String.ofList (s.toList.map Char.toLower)
  if ["yes", "true", "on"].contains lower then .ok true
  else if ["no", "false", "off"].contains lower then .ok false
  else .error (.boolean lower)

/-- The value of a text with a standard tag for scalars. -/
def scalarValue (name : String) (s : String) : Except Fault Scalar :=
  match name with
  | "null" => .ok .null
  | "bool" => (boolOf s).map .bool
  | "int" => (readInteger s).map .int
  | "float" => (readFloat s).map .float
  | "str" => .ok (.str s)
  | "binary" =>
    if s.toList.all (fun c => c.toNat < 0x80) then
      match digits64? 0 0 s.toList with
      | some digits => .ok (.foreign (.bytes (bytes64 digits)))
      | none => .error .malformed
    else .error .malformed
  | "timestamp" =>
    match Plain.readStamp? s.toList with
    | some stamp => (stampValue stamp).mapError .calendar
    | none => .error (.timestamp s)
  | _ => .error .malformed

/-- The value of the default text of a mapping with a standard tag for scalars; a timestamp cannot
be made from one. -/
def defaultValue (name : String) (s : String) : Except Fault Scalar :=
  if name = "timestamp" then .error .timestampCollection else scalarValue name s

def scalarTags : List String := ["null", "bool", "int", "float", "str", "binary", "timestamp"]

def collectionTags : List String := ["seq", "map", "omap", "pairs", "set"]

/-- The name of a standard tag, empty for any other. -/
def standardName (tag : String) : String := (Text.strip? tagLead tag).getD ""

/-- A fault of the node's form at a level. -/
def malformedAt {α : Type} (level : Nat) : Leveled α := .error (level, .malformed)

/-- The value of a key at a level. A collection cannot be a key, which shows before its own faults
do. -/
def keyOf (level : Nat) (value : Leveled Tree) : Leveled Scalar :=
  match value with
  | .ok (.scalar (.foreign (.set _ _))) => malformedAt level
  | .ok (.scalar (.foreign (.object _))) => malformedAt level
  | .ok (.scalar s) => .ok s
  | .ok _ => malformedAt level
  | .error (l, e) => if l ≤ level then .error (l, e) else malformedAt level

/-- What stands in an outline where the value holds itself. -/
def again : Scalar := .foreign (.object 0)

/-- The set of the keys of a mapping. -/
def setOf (members : List Scalar) : Foreign :=
  let (texts, others) := members.partition Scalar.isText
  .set (texts.map Scalar.text) others.length

mutual

/-- The value of a node that stands at a level. -/
def build (level : Nat) : Node → Leveled Tree
  | .scalar t s =>
    if scalarTags.contains (standardName t) then
      (atLevel level (scalarValue (standardName t) s)).map .scalar
    else if collectionTags.contains (standardName t) then malformedAt (level + 1)
    else malformedAt level
  | .seq t items =>
    match standardName t with
    | "seq" => (buildItems (level + 1) items).map .seq
    | "omap" => (buildSingles (level + 1) items).map .seq
    | "pairs" => (buildSingles (level + 1) items).map .seq
    | name => malformedAt (if collectionTags.contains name then level + 1 else level)
  | .map t pairs =>
    match standardName t with
    | "map" =>
      if merges pairs then
        let (more, own) := buildPairs (level + 1) pairs
        both (fun m o => .map (Table.ofPairs (m ++ o))) more own
      else malformedAt (level + 1)
    | "set" =>
      if merges pairs then
        let (more, own) := buildPairs (level + 1) pairs
        both (fun m o => .foreign (setOf (Table.ofPairs (m ++ o)).keys)) more own
      else malformedAt (level + 1)
    | name =>
      if scalarTags.contains name then
        (atLevel level ((text (.map t pairs)).bind (defaultValue name))).map .scalar
      else malformedAt (if collectionTags.contains name then level + 1 else level)
  | .loop _ => .ok (.scalar again)

def buildItems (level : Nat) : List Node → Leveled (List Tree)
  | [] => .ok []
  | n :: r => both (· :: ·) (build level n) (buildItems level r)

/-- The values of a sequence of mappings of one entry: each is a pair. -/
def buildSingles (level : Nat) : List Node → Leveled (List Tree)
  | [] => .ok []
  | .map _ [(k, v)] :: r =>
    both (fun _ ts => .foreign (.tuple 2) :: ts)
      (both Prod.mk (build level k) (build level v)) (buildSingles level r)
  | _ :: _ => malformedAt level

/-- The entries that a mapping merges, and its own. -/
def buildPairs (level : Nat) :
    List (Node × Node) → Leveled (List (Scalar × Tree)) × Leveled (List (Scalar × Tree))
  | [] => (.ok [], .ok [])
  | (k, v) :: r =>
    let (more, own) := buildPairs level r
    if k.tag = standardTag "merge" then (both (· ++ ·) (buildMerged level v) more, own)
    else
      let key := keyOf level (build level k)
      let key := if k.tag = standardTag "value" then
          match k with
          | .scalar _ s => .ok (.str s)
          | _ => key
        else key
      (more, both (· :: ·) (both Prod.mk key (build level v)) own)

/-- The entries that a merge key brings in: those of a mapping, or of the mappings of a sequence,
the last one first. -/
def buildMerged (level : Nat) : Node → Leveled (List (Scalar × Tree))
  | .map _ pairs =>
    let (more, own) := buildPairs level pairs
    both (· ++ ·) more own
  | .seq _ items => buildMergedItems level items
  | .scalar _ _ => malformedAt level
  | .loop _ => .ok [(again, .scalar again)]

/-- The entries of the mappings of a sequence, those of the last one first. -/
def buildMergedItems (level : Nat) : List Node → Leveled (List (Scalar × Tree))
  | [] => .ok []
  | .map _ pairs :: r =>
    let (more, own) := buildPairs level pairs
    both (· ++ ·) (buildMergedItems level r) (both (· ++ ·) more own)
  | .loop _ :: r => both (· ++ ·) (buildMergedItems level r) (.ok [(again, .scalar again)])
  | _ :: _ => malformedAt level

end

/-- **The value of a node in outline**, or the fault that shows first. -/
def outline (n : Node) : Except Fault Tree := (build 0 n).mapError (·.2)

end Compliance.Yaml.Node
