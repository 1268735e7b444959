import Compliance.Tree.Basic

/-! # Equality of trees

* `Tree.alike`: two trees that count as the same member of a collection. Scalars count by
  `Scalar.ident`, sequences item by item, mappings by their keys in any order.
* `Tree.equals`: a comparison of two trees. It differs from `alike` on a bare NaN alone, which is
  alike to itself and equal to nothing.
* `Tree.twins`: equal trees of one type; inside collections the type does not matter.
-/

namespace Compliance.Tree

mutual

/-- The trees count as the same member of a collection. -/
def alike : Tree → Tree → Bool
  | .scalar a, .scalar b => a == b
  | .seq xs, .seq ys => alikeItems xs ys
  | .map es, .map fs => es.length == fs.length && alikeEntries es fs
  | _, _ => false

/-- The lists are of one length and alike item by item. -/
def alikeItems : List Tree → List Tree → Bool
  | [], [] => true
  | x :: xs, y :: ys => alike x y && alikeItems xs ys
  | _, _ => false

/-- Each entry has a partner in the second mapping under the same key. -/
def alikeEntries : List (Scalar × Tree) → List (Scalar × Tree) → Bool
  | [], _ => true
  | (k, v) :: es, fs =>
    (match Table.get? fs k with
      | some w => alike v w
      | none => false) && alikeEntries es fs

end

/-- The tree is a bare NaN. -/
def isNaN : Tree → Bool
  | .scalar s => s.isNaN
  | _ => false

/-- The trees compare as equal. -/
def equals (a b : Tree) : Bool := alike a b && !a.isNaN

/-- The trees are of one type and compare as equal. -/
def twins (a b : Tree) : Bool := decide (a.dataType = b.dataType) && equals a b

end Compliance.Tree
