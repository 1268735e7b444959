import Compliance.Tree.Basic

/-! # Trees in messages

The one-line text of a tree: mappings and sequences in flow style, texts inside them in double
quotes without escapes. A null is empty on its own and as a key, and spelled out inside collections.

* `Tree.render`: the text.
* `Limits`, `Tree.fault?`: the system may refuse to write a value out, for an integer has too many
  digits or collections are nested too deep; then there is no text.
-/

namespace Compliance

/-- The text of a scalar in a message. -/
def Scalar.render : Scalar → String
  | .null => ""
  | .bool true => "true"
  | .bool false => "false"
  | s => s.text

/-- The text of a scalar inside a collection. -/
def Scalar.renderItem : Scalar → String
  | .str s => "\"" ++ s ++ "\""
  | .null => "null"
  | s => s.render

namespace Tree

mutual

/-- The text of a tree inside a collection. -/
def renderItem : Tree → String
  | .scalar s => s.renderItem
  | .seq items => "[" ++ ", ".intercalate (renderItems items) ++ "]"
  | .map entries => "\x7b" ++ ", ".intercalate (renderEntries entries) ++ "\x7d"

def renderItems : List Tree → List String
  | [] => []
  | t :: r => renderItem t :: renderItems r

def renderEntries : List (Scalar × Tree) → List String
  | [] => []
  | (k, t) :: r => (k.render ++ ": " ++ renderItem t) :: renderEntries r

end

/-- The text of a tree in a message. -/
def render : Tree → String
  | .scalar s => s.render
  | t => renderItem t

end Tree

/-! ## Limits -/

/-- What the system writes out: integers of at most so many digits, and collections in at most so
many others. Without a number there is no limit. -/
structure Limits where
  digits : Option Nat := none
  depth : Option Nat := none

/-- Why a value is not written out. -/
inductive TextFault where
  | digits (limit : Nat)
  | depth
deriving DecidableEq, Repr

/-- The system's words for a fault. -/
def TextFault.message : TextFault → String
  | .digits limit => "Exceeds the limit (" ++ toString limit ++ " digits) for integer string " ++
      "conversion; use sys.set_int_max_str_digits() to increase the limit"
  | .depth => "maximum recursion depth exceeded"

/-- What keeps a scalar from being written out. -/
def Scalar.fault? (limits : Limits) : Scalar → Option TextFault
  | .int n => (limits.digits.filter fun limit => Nat.pow 10 limit ≤ n.natAbs).map .digits
  | _ => none

namespace Tree

mutual

/-- What keeps a tree inside so many collections from being written out, which is what is met
first. -/
def fault? (limits : Limits) (inside : Nat) : Tree → Option TextFault
  | .scalar s => s.fault? limits
  | .seq items =>
    if limits.depth.any (· ≤ inside) then some .depth else itemsFault? limits (inside + 1) items
  | .map entries =>
    if limits.depth.any (· ≤ inside) then some .depth
    else entriesFault? limits (inside + 1) entries

def itemsFault? (limits : Limits) (inside : Nat) : List Tree → Option TextFault
  | [] => none
  | t :: r => (fault? limits inside t).or (itemsFault? limits inside r)

/-- What keeps the entries of a mapping from being written out, each key before its value. -/
def entriesFault? (limits : Limits) (inside : Nat) : List (Scalar × Tree) → Option TextFault
  | [] => none
  | (k, t) :: r =>
    ((k.fault? limits).or (fault? limits inside t)).or (entriesFault? limits inside r)

end

end Tree

end Compliance
