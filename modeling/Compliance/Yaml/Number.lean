import Compliance.Text.DecimalDigit
import Compliance.Text.Digits
import Compliance.Yaml.Cursor
import Compliance.Yaml.Tag

/-! # The values of tagged numbers

A scalar may be tagged a number whatever its text, so each reader says which texts it refuses.
Underscores and blanks around a number count for nothing, and digits may be of any script.

* `readInteger`: binary, octal, hexadecimal, base 60 and decimal integers.
* `readFloat`: decimals, base 60 with a decimal last place, infinities and not-a-number.
-/

namespace Compliance.Yaml

/-- Surrounding blanks do not count in a number. -/
def isOuterBlank (c : Char) : Bool :=
  c == ' ' || ('\t' ≤ c && c ≤ '\r') || c == '\x85' || c == '\xa0' || c == '\u1680' ||
    ('\u2000' ≤ c && c ≤ '\u200a') || c == '\u2028' || c == '\u2029' ||
    c == '\u202f' || c == '\u205f' || c == '\u3000'

/-- The text without blanks around it and with its digits in ASCII. -/
def trimmed (cs : List Char) : List Char :=
  (((cs.dropWhile isOuterBlank).reverse.dropWhile isOuterBlank).reverse).map Text.asciiDigit

/-- The value of a row of digits in a base up to 16; none if a digit is too large or there is
none. -/
def digitsIn? (base : Nat) (cs : List Char) : Option Nat :=
  if cs.isEmpty then none
  else
    cs.foldl
      (fun n c => do
        let d ← Text.hexValue? c
        if d < base then return (← n) * base + d else none)
      (some 0)

/-- A row of digits, or one behind the mark of its base. -/
def markedDigits? (base : Nat) (cs : List Char) : Option Nat :=
  match cs with
  | '0' :: m :: r =>
    let marks : List Char :=
      if base = 2 then ['b', 'B'] else if base = 8 then ['o', 'O']
      else if base = 16 then ['x', 'X'] else []
    if marks.contains m then digitsIn? base r else digitsIn? base cs
  | cs => digitsIn? base cs

/-- An integer in the given base, with a sign and blanks around it if there are any. -/
def integerIn (base : Nat) (cs : List Char) : Except Fault Int :=
  let (negative, ds) := Decimal.splitSign (trimmed cs)
  match markedDigits? base ds with
  | some n => .ok (if negative then -(n : Int) else n)
  | none => .error (.integer base (String.ofList cs))

/-- The integer of places of base 60, the last one first. -/
def sexagesimal (places : List Int) : Int :=
  (places.foldl (fun (acc : Int × Int) d => (acc.1 + d * acc.2, acc.2 * 60)) (0, 1)).1

/-- The integer that a text tagged as one writes. -/
def readInteger (text : String) : Except Fault Int := do
  let cs := text.toList.filter (· != '_')
  if cs.isEmpty then throw .emptyNumber
  let (negative, body) := Decimal.splitSign cs
  let n ←
    match body with
    | [] => throw .emptyNumber
    | '0' :: 'b' :: r => integerIn 2 r
    | '0' :: 'x' :: r => integerIn 16 r
    | '0' :: _ => integerIn 8 body
    | body =>
      if body.contains ':' then
        return ← (do
          let places ← (Plain.colonPieces body).mapM (integerIn 10)
          let n := sexagesimal places.reverse
          pure (if negative then -n else n))
      else integerIn 10 body
  return if negative then -n else n

/-- The payload of the one not-a-number that every text means. -/
def nanPayload : Nat := 0

/-- A decimal with a sign and blanks around it if there are any, or the name of an infinity or a
not-a-number. -/
def decimalFloat (cs : List Char) : Except Fault Binary64 :=
  let body := trimmed cs
  match Decimal.read? body with
  | some d => .ok d.nearest
  | none =>
    let (negative, name) := Decimal.splitSign body
    let name := String.ofList name
    if name == "inf" || name == "infinity" then .ok (Binary64.infinity negative)
    else if name == "nan" then .ok (Binary64.nan nanPayload)
    else .error (.float (String.ofList cs))

/-- The number with its sign turned if asked. -/
def signed (negative : Bool) (x : Binary64) : Binary64 := if negative then x.negate else x

/-- The least weight of a place that no floating-point number is near to. -/
def weightLimit : Nat := Nat.pow 2 1024 - Nat.pow 2 970

/-- The value of places of base 60, the last one first. -/
def sexagesimalFloat (places : List Binary64) : Except Fault Binary64 :=
  go 1 (Binary64.zero false) places
where
  /-- Adds places of the given weight and up. -/
  go (weight : Nat) (sum : Binary64) : List Binary64 → Except Fault Binary64
    | [] => .ok sum
    | x :: places =>
      if weightLimit ≤ weight then .error .overflow
      else go (weight * 60) (sum.sum (x.product weight)) places

/-- The floating-point number that a text tagged as one writes. -/
def readFloat (text : String) : Except Fault Binary64 := do
  let cs := (text.toList.filter (· != '_')).map Char.toLower
  if cs.isEmpty then throw .emptyNumber
  let (negative, body) := Decimal.splitSign cs
  if body == ".inf".toList then return Binary64.infinity negative
  else if body == ".nan".toList then return Binary64.nan nanPayload
  else if body.contains ':' then
    let places ← (Plain.colonPieces body).mapM decimalFloat
    return signed negative (← sexagesimalFloat places.reverse)
  else return signed negative (← decimalFloat body)

end Compliance.Yaml
