import Compliance.Text.Cut
import Compliance.Tree.Equality

/-! # Deep merge

An override is laid over a base: mappings merge key by key, and for everything else the override
wins. Under `Merge.Mode.union` lists are unioned instead of replaced, a null leaves the base as it
is, and a knockout marker lets the override take back what was merged before:

    base:      pkgs: [telnet, rsh]
    override:  pkgs: [--telnet, ftp]
    result:    pkgs: [rsh, ftp]

A value that equals the bare marker removes its key.

* `unique`: the first of each class of twins, in order.
* `mergeValue`: one value over what is there; `none` stands for nothing there.
* `deepMerge`: the entries of the override one after the other.
* `Knockout.refuses`: a marker that is not a text cannot be held against texts in lists. Whether a
  merge meets such a list is decided by the override alone.
-/

namespace Compliance

/-- The first of each class of twins, in order. -/
def unique (items : List Tree) : List Tree :=
  items.foldl (fun kept t => if kept.any (Tree.twins · t) then kept else kept ++ [t]) []

/-- How an override marks what it takes back. -/
inductive Knockout where
  | off
  | marker (text : String)
  | unusable (value : Tree)
deriving Repr, Inhabited

namespace Knockout

/-- The marker where nothing else is said. -/
def defaultText : String := "--"

/-- The marker given by a value: one without content switches knockout off. -/
def ofTree (t : Tree) : Knockout :=
  if t.hasContent then
    match t with
    | .str s => .marker s
    | t => .unusable t
  else .off

/-- The value equals the bare marker and removes its key. -/
def removes (k : Knockout) (value : Tree) : Bool :=
  match k with
  | .off => false
  | .marker p => value.equals (.str p)
  | .unusable t => value.equals t

/-- The element that a list item takes back. -/
def struck? (k : Knockout) (item : Tree) : Option String :=
  match k, item with
  | .marker p, .str s => Text.strip? p s
  | _, _ => none

end Knockout

/-- How lists and nulls are merged, and what takes elements back. -/
structure Merge.Mode where
  union : Bool
  knockout : Knockout
deriving Repr, Inhabited

namespace Merge

/-- The override replaces everything but mappings. -/
def Mode.replace : Mode := ⟨false, .off⟩

/-- Lists are unioned and nothing is taken back. -/
def Mode.unite : Mode := ⟨true, .off⟩

/-- The union of two lists, less what the second takes back from the first. -/
def unionItems (k : Knockout) (existing items : List Tree) : List Tree :=
  let struck := items.filterMap k.struck?
  let kept := existing.filter fun t =>
    match t with
    | .str s => !struck.contains s
    | _ => true
  unique (kept ++ items.filter fun t => (k.struck? t).isNone)

/-- The items of a list that is there, none of anything else. -/
def existingItems : Option Tree → List Tree
  | some (.seq items) => items
  | _ => []

/-- The entries of a mapping that is there, none of anything else. -/
def existingEntries : Option Tree → Mapping
  | some (.map entries) => entries
  | _ => []

/-- Puts a merged value under its key, or removes the key. -/
def store (m : Mapping) (key : Scalar) : Option Tree → Mapping
  | some t => m.insert key t
  | none => m.erase key

end Merge

open Merge in
mutual

/-- The value over what is there; `none` as a result removes the key. -/
def mergeValue (mode : Mode) (current : Option Tree) : Tree → Option Tree
  | .scalar s =>
    if mode.knockout.removes (.scalar s) then none
    else if s.dataType = .null ∧ mode.union then some (current.getD (.scalar s))
    else some (.scalar s)
  | .seq items =>
    if mode.knockout.removes (.seq items) then none
    else if mode.union then some (.seq (unionItems mode.knockout (existingItems current) items))
    else some (.seq items)
  | .map entries =>
    if mode.knockout.removes (.map entries) then none
    else some (.map (mergeEntries mode (existingEntries current) entries))

/-- The entries laid over a mapping one after the other. -/
def mergeEntries (mode : Mode) (base : Mapping) : List (Scalar × Tree) → Mapping
  | [] => base
  | (key, value) :: r =>
    mergeEntries mode (store base key (mergeValue mode (base.get? key) value)) r

end

/-- Lays the override over the base. -/
def deepMerge (mode : Merge.Mode) (base override : Mapping) : Mapping :=
  mergeEntries mode base override

/-- A marker of this type was held against a text in a list. -/
structure MarkerFault where
  type : DataType
deriving DecidableEq, Repr

def MarkerFault.message (e : MarkerFault) : String :=
  "startswith first arg must be str or a tuple of str, not " ++ e.type.name

namespace Merge

mutual

/-- The value holds a list with a text where the marker `marker` would have to be matched. -/
def meetsText (marker : Tree) : Tree → Bool
  | .scalar _ => false
  | .seq items => !Tree.equals (.seq items) marker && items.any fun t => t.asText?.isSome
  | .map entries => !Tree.equals (.map entries) marker && meetsTextIn marker entries

/-- Some value of the entries holds such a list. -/
def meetsTextIn (marker : Tree) : List (Scalar × Tree) → Bool
  | [] => false
  | (_, t) :: r => meetsText marker t || meetsTextIn marker r

end

/-- The fault of merging the override: its marker is no text and would have to be matched. -/
def fault? (mode : Mode) (override : Mapping) : Option MarkerFault :=
  match mode.knockout with
  | .unusable marker =>
    if mode.union && meetsTextIn marker override then some ⟨marker.dataType⟩ else none
  | _ => none

end Merge

/-- Lays the override over the base, or says why its marker cannot be matched. -/
def deepMerge? (mode : Merge.Mode) (base override : Mapping) : Except MarkerFault Mapping :=
  match Merge.fault? mode override with
  | some e => .error e
  | none => .ok (deepMerge mode base override)

end Compliance
