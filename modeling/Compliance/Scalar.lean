import Compliance.Calendar
import Compliance.Number.Decimal
import Compliance.Table
import Compliance.Text.Quoted

/-! # Scalars

The values without parts: null, booleans, integers of any size, binary64 numbers, text, dates,
date-times, and values of types that compliance data has no use for. Scalars are also the keys of
mappings.

* `Scalar.ident`: what a scalar counts as in a comparison. Booleans and numbers count as their exact
  numeric value, whatever their type; a date-time with an offset counts as its instant and never
  equals one without.
* `Scalar` keys are the same key iff they count as the same; `==` on scalars is this relation.
-/

namespace Compliance

/-- Values of types that a document may not hold. Of a set the texts are known and how many other
members there are, of a tuple the size; a complex number is zero, and opaque objects are told apart
by a number. -/
inductive Foreign where
  | set (texts : List String) (others : Nat)
  | bytes (content : List UInt8)
  | tuple (size : Nat)
  | complex
  | object (number : Nat)
deriving DecidableEq, Repr

namespace Foreign

def name : Foreign → String
  | .set _ _ => "set"
  | .bytes _ => "bytes"
  | .tuple _ => "tuple"
  | .complex => "complex"
  | .object _ => "object"

/-- Neither an empty collection nor zero. -/
def hasContent : Foreign → Bool
  | .set texts others => !texts.isEmpty || others != 0
  | .bytes content => !content.isEmpty
  | .tuple size => size != 0
  | .complex => false
  | .object _ => true

/-- The plain text; for members that are not known stand dots. -/
def text : Foreign → String
  | .set [] 0 => "set()"
  | .set texts others => "\x7b" ++ ", ".intercalate
      (texts.map Text.quoted ++ List.replicate others "...") ++ "\x7d"
  | .bytes content => Text.quotedBytes content
  | .tuple size => "(" ++ ", ".intercalate (List.replicate size "...") ++ ")"
  | .complex => "0j"
  | .object _ => "<object object>"

end Foreign

/-- A value without parts. -/
inductive Scalar where
  | null
  | bool (b : Bool)
  | int (n : Int)
  | float (x : Binary64)
  | str (s : String)
  | date (d : Date)
  | datetime (t : DateTime)
  | foreign (f : Foreign)
deriving Repr, Inhabited

namespace Scalar

/-- What scalars count as when they are compared. -/
inductive Ident where
  | null
  | number (value : Rat)
  | infinite (negative : Bool)
  | nan (payload : Nat)
  | text (s : String)
  | day (d : Date)
  | clock (reading : Int)
  | instant (microseconds : Int)
  | foreign (f : Foreign)
deriving DecidableEq

/-- What `s` counts as. -/
def ident : Scalar → Ident
  | .null => .null
  | .bool b => .number (if b then 1 else 0)
  | .int n => .number n
  | .float x =>
    match x.view with
    | .finite value => .number value
    | .infinite negative => .infinite negative
    | .nan payload => .nan payload
  | .str s => .text s
  | .date d => .day d
  | .datetime t =>
    match t.offset with
    | none => .clock t.reading
    | some offset => .instant (t.instant offset)
  | .foreign .complex => .number 0
  | .foreign f => .foreign f

/-- Scalars are the same key when they count as the same. -/
instance : BEq Scalar := ⟨fun a b => decide (a.ident = b.ident)⟩

theorem beq_iff {a b : Scalar} : (a == b) = true ↔ a.ident = b.ident := by
  simp [BEq.beq]

instance : EquivBEq Scalar where
  rfl := beq_iff.2 rfl
  symm h := beq_iff.2 (beq_iff.1 h).symm
  trans h k := beq_iff.2 ((beq_iff.1 h).trans (beq_iff.1 k))

/-- A NaN, which no comparison finds equal to anything. -/
def isNaN : Scalar → Bool
  | .float x => x.isNaN
  | _ => false

def isText : Scalar → Bool
  | .str _ => true
  | _ => false

/-- The scalar is one of the given texts. -/
def isOneOf (s : Scalar) (names : List String) : Bool :=
  match s with
  | .str t => names.contains t
  | _ => false

/-- The plain text of a scalar. -/
def text : Scalar → String
  | .null => "None"
  | .bool true => "True"
  | .bool false => "False"
  | .int n => toString n
  | .float x => x.text
  | .str s => s
  | .date d => d.text
  | .datetime t => t.text
  | .foreign f => f.text

end Scalar

end Compliance
