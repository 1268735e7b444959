import Compliance.Number.Decimal

/-! # The tags of plain scalars

A plain scalar without a tag of its own gets its type from its spelling: YAML 1.1 booleans, nulls,
integers of base 2, 8, 10, 16 and 60, floating-point numbers with a point, timestamps, and the marks
of merge and default keys. Everything else is a text.
-/

namespace Compliance.Yaml

/-- What the standard tags share. -/
def tagLead : String := "tag:yaml.org,2002:"

def standardTag (name : String) : String := tagLead ++ name

namespace Plain

def nulls : List String := ["", "~", "null", "Null", "NULL"]

def trues : List String := ["yes", "Yes", "YES", "true", "True", "TRUE", "on", "On", "ON"]

def falses : List String := ["no", "No", "NO", "false", "False", "FALSE", "off", "Off", "OFF"]

/-- The text without a sign in front. -/
def unsigned (cs : List Char) : List Char := (Decimal.splitSign cs).2

def isDigitOrBar (c : Char) : Bool := c.isDigit || c == '_'

/-- A digit and then digits and underscores. -/
def isDigits (cs : List Char) : Bool :=
  match cs with
  | c :: r => c.isDigit && r.all isDigitOrBar
  | [] => false

/-- The pieces of a text between colons. -/
def colonPieces : List Char → List (List Char)
  | [] => [[]]
  | c :: r =>
    match colonPieces r with
    | [] => [[c]]
    | p :: ps => if c = ':' then [] :: p :: ps else (c :: p) :: ps

/-- A place of a number of base 60: one digit, or two of which the first is at most 5. -/
def isSixtieth (cs : List Char) : Bool :=
  match cs with
  | [a] => a.isDigit
  | [a, b] => '0' ≤ a && a ≤ '5' && b.isDigit
  | _ => false

/-- A row of characters of a class, underscores among them, that is not empty. -/
def isRow (test : Char → Bool) (cs : List Char) : Bool :=
  !cs.isEmpty && cs.all fun c => test c || c == '_'

def isOctalDigit (c : Char) : Bool := '0' ≤ c && c ≤ '7'

def isBinaryDigit (c : Char) : Bool := c == '0' || c == '1'

def isHexDigit (c : Char) : Bool := c.isDigit || 'a' ≤ c && c ≤ 'f' || 'A' ≤ c && c ≤ 'F'

/-- A plain scalar is an integer, of base 2, 8, 10, 16 or 60. -/
def isInteger (cs : List Char) : Bool :=
  match unsigned cs with
  | '0' :: 'b' :: r => isRow isBinaryDigit r
  | '0' :: 'x' :: r => isRow isHexDigit r
  | ['0'] => true
  | '0' :: r => isRow isOctalDigit r
  | cs =>
    match colonPieces cs with
    | first :: rest => isDigits first && first.head? != some '0' && rest.all isSixtieth
    | [] => false

/-- Nothing, or an exponent with its sign. -/
def isPower (cs : List Char) : Bool :=
  match cs with
  | [] => true
  | c :: sign :: r =>
    (c == 'e' || c == 'E') && (sign == '+' || sign == '-') && !r.isEmpty && r.all Char.isDigit
  | _ => false

/-- Digits and underscores, and then nothing or an exponent. -/
def isPlaces (cs : List Char) : Bool := isPower (cs.dropWhile isDigitOrBar)

/-- The first place of a number of base 60 with a point, its further places, and what stands behind
the point. -/
def isSexagesimalFloat (cs : List Char) : Bool :=
  let front := cs.takeWhile (· != '.')
  match cs.dropWhile (· != '.'), colonPieces front with
  | '.' :: places, first :: rest =>
    isDigits first && !rest.isEmpty && rest.all isSixtieth && places.all isDigitOrBar
  | _, _ => false

def infinities : List String := [".inf", ".Inf", ".INF"]

/-- The spellings of a number that is none. -/
def nans : List String := [".nan", ".NaN", ".NAN"]

/-- A plain scalar is a floating-point number: with a point, of base 10 or 60, or a name. -/
def isFloat (cs : List Char) : Bool :=
  let body := unsigned cs
  let decimal :=
    match body.dropWhile isDigitOrBar with
    | '.' :: places => isDigits (body.takeWhile isDigitOrBar) && isPlaces places
    | _ => false
  let pointFirst :=
    match cs with
    | '.' :: d :: places => d.isDigit && isPlaces places
    | _ => false
  decimal || pointFirst || isSexagesimalFloat body ||
    infinities.contains (String.ofList body) || nans.contains (String.ofList cs)

/-- The digits at the front of a text, at most `n`, and what is left. -/
def digitsUpTo : Nat → List Char → List Char × List Char
  | 0, cs => ([], cs)
  | _, [] => ([], [])
  | n + 1, c :: r =>
    if c.isDigit then
      let (ds, rest) := digitsUpTo n r
      (c :: ds, rest)
    else ([], c :: r)

/-- The fields of a written timestamp; the time of day and the zone may be missing. -/
structure Stamp where
  year : List Char
  month : List Char
  day : List Char
  clock : Option (List Char × List Char × List Char × List Char)
  zone : Option (Option (Char × List Char × List Char))

/-- The zone behind a time of day: a letter, or an offset of hours and perhaps minutes. -/
def readZone? (cs : List Char) : Option (Option (Option (Char × List Char × List Char))) :=
  match cs.dropWhile fun c => c == ' ' || c == '\t' with
  | [] => if cs.isEmpty then some none else none
  | ['Z'] => some (some none)
  | sign :: r =>
    if sign == '+' || sign == '-' then
      let (hours, rest) := digitsUpTo 2 r
      if hours.isEmpty then none
      else
        match rest with
        | [] => some (some (some (sign, hours, [])))
        | [':', a, b] =>
          if a.isDigit && b.isDigit then some (some (some (sign, hours, [a, b]))) else none
        | _ => none
    else none

/-- The time of day behind its separator: hours, minutes, seconds, and digits behind a point. -/
def readClock? (cs : List Char) :
    Option ((List Char × List Char × List Char × List Char) × List Char) :=
  let (hours, rest) := digitsUpTo 2 cs
  match rest with
  | ':' :: a :: b :: ':' :: c :: d :: r =>
    if !hours.isEmpty && [a, b, c, d].all Char.isDigit then
      match r with
      | '.' :: r =>
        some ((hours, [a, b], [c, d], r.takeWhile Char.isDigit), r.dropWhile Char.isDigit)
      | r => some ((hours, [a, b], [c, d], []), r)
    else none
  | _ => none

/-- The text behind the letter or the blanks between a day and a time of day. -/
def behindSeparator? (cs : List Char) : Option (List Char) :=
  match cs with
  | 'T' :: r => some r
  | 't' :: r => some r
  | c :: r =>
    if c == ' ' || c == '\t' then some (r.dropWhile fun c => c == ' ' || c == '\t') else none
  | [] => none

/-- The text without a line feed at its end, unless it is all there is. -/
def dropLastBreak (cs : List Char) : List Char :=
  match cs.reverse with
  | '\n' :: c :: r => (c :: r).reverse
  | _ => cs

/-- The fields of a timestamp that fills the text, but for a line feed at the end. -/
def readStamp? (cs : List Char) : Option Stamp :=
  let (year, rest) := digitsUpTo 4 (dropLastBreak cs)
  match rest with
  | '-' :: rest =>
    let (month, rest) := digitsUpTo 2 rest
    match rest with
    | '-' :: rest =>
      let (day, rest) := digitsUpTo 2 rest
      if year.length != 4 || month.isEmpty || day.isEmpty then none
      else if rest.isEmpty then some ⟨year, month, day, none, none⟩
      else do
        let (clock, rest) ← readClock? (← behindSeparator? rest)
        let zone ← readZone? rest
        return ⟨year, month, day, some clock, zone⟩
    | _ => none
  | _ => none

/-- A plain scalar is a timestamp; a bare day needs two digits for month and day. -/
def isTimestamp (cs : List Char) : Bool :=
  match readStamp? cs with
  | some s => s.clock.isSome || (s.month.length == 2 && s.day.length == 2)
  | none => false

/-- The name of the standard tag that a plain scalar gets; a line feed at the end does not count. -/
def tagName (scalar : String) : String :=
  let cs := dropLastBreak scalar.toList
  let text := String.ofList cs
  if trues.contains text || falses.contains text then "bool"
  else if isFloat cs then "float"
  else if isInteger cs then "int"
  else if text == "<<" then "merge"
  else if nulls.contains text then "null"
  else if isTimestamp scalar.toList then "timestamp"
  else if text == "=" then "value"
  else "str"

end Plain

end Compliance.Yaml
