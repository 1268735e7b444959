import Compliance.Text.Digits
import Compliance.Tree.Basic

/-! # Reading JSON

A reader for JSON texts with not-a-number and infinities, that says at which character a text stops
being one. Integers have any size; of entries with one name the last value counts, at the first
place.

* `Json.Fault`: what was expected, and where; lines and columns are counted in characters.
* `Json.readString`: the characters between quotes. A control character, an unknown escape and a
  missing quote are faults; the latter is placed at the opening quote.
* `Json.readValue`: one value; a text that starts no value is a fault where the value should start.
* `Json.read`: a text that is one value between blanks.
-/

namespace Compliance.Json

/-- What a text lacks. -/
inductive Reason where
  | mark
  | value
  | name
  | colon
  | comma
  | extra
  | unterminated
  | control
  | escape
  | codeEscape
deriving DecidableEq, Repr

def Reason.message : Reason → String
  | .mark => "Unexpected UTF-8 BOM (decode using utf-8-sig)"
  | .value => "Expecting value"
  | .name => "Expecting property name enclosed in double quotes"
  | .colon => "Expecting ':' delimiter"
  | .comma => "Expecting ',' delimiter"
  | .extra => "Extra data"
  | .unterminated => "Unterminated string starting at"
  | .control => "Invalid control character at"
  | .escape => "Invalid \\escape"
  | .codeEscape => "Invalid \\uXXXX escape"

/-- A reason and the character at which it arose. -/
structure Fault where
  reason : Reason
  position : Nat
deriving DecidableEq, Repr

/-- The fault in words, with its place in the text. -/
def Fault.message (e : Fault) (text : List Char) : String :=
  let front := text.take e.position
  let line := front.count '\n' + 1
  let column := (front.reverse.takeWhile (· != '\n')).length + 1
  e.reason.message ++ ": line " ++ toString line ++ " column " ++ toString column ++ " (char "
    ++ toString e.position ++ ")"

/-- What is read, and where and how the text goes on. -/
structure Read (α : Type) where
  value : α
  position : Nat
  rest : List Char

/-- A character that may stand between tokens. -/
def isBlank (c : Char) : Bool := c == ' ' || c == '\t' || c == '\n' || c == '\r'

def skipBlanks (position : Nat) (rest : List Char) : Nat × List Char :=
  let blanks := (rest.takeWhile isBlank).length
  (position + blanks, rest.drop blanks)

/-- The value of four hexadecimal digits. -/
def hexUnit? (a b c d : Char) : Option Nat := Text.hexNumber? [a, b, c, d]

/-- The first unit of a pair. -/
def isHighUnit (n : Nat) : Bool := 0xD800 ≤ n && n < 0xDC00

/-- The second unit of a pair. -/
def isLowUnit (n : Nat) : Bool := 0xDC00 ≤ n && n < 0xE000

/-- The character of a code unit; a unit that is half a pair alone is replaced. -/
def unitChar (n : Nat) : Char := if isHighUnit n || isLowUnit n then '\ufffd' else Char.ofNat n

/-- The character that two code units form. -/
def pairChar (high low : Nat) : Char :=
  Char.ofNat (0x10000 + (high - 0xD800) * 1024 + (low - 0xDC00))

/-- The character that an escape of one letter stands for. -/
def simpleEscape? (c : Char) : Option Char :=
  match c with
  | '"' => some '"'
  | '\\' => some '\\'
  | '/' => some '/'
  | 'b' => some '\x08'
  | 'f' => some '\x0c'
  | 'n' => some '\n'
  | 'r' => some '\r'
  | 't' => some '\t'
  | _ => none

/-- The characters up to the closing quote, behind `done`, last character first. A code escape needs
some character behind its digits; of two units that form no pair each stands alone. -/
def readString (start position : Nat) (done : List Char) :
    List Char → Except Fault (Read (List Char))
  | [] => .error ⟨.unterminated, start⟩
  | '"' :: r => .ok ⟨done.reverse, position + 1, r⟩
  | ['\\'] => .error ⟨.unterminated, start⟩
  | '\\' :: 'u' :: a :: b :: c :: d :: '\\' :: 'u' :: e :: f :: g :: h :: x :: r =>
    match hexUnit? a b c d with
    | none => .error ⟨.codeEscape, position + 1⟩
    | some high =>
      if isHighUnit high then
        match hexUnit? e f g h with
        | none => .error ⟨.codeEscape, position + 7⟩
        | some low =>
          if isLowUnit low then
            readString start (position + 12) (pairChar high low :: done) (x :: r)
          else
            readString start (position + 6) (unitChar high :: done)
              ('\\' :: 'u' :: e :: f :: g :: h :: x :: r)
      else
        readString start (position + 6) (unitChar high :: done)
          ('\\' :: 'u' :: e :: f :: g :: h :: x :: r)
  | '\\' :: 'u' :: a :: b :: c :: d :: x :: r =>
    match hexUnit? a b c d with
    | none => .error ⟨.codeEscape, position + 1⟩
    | some n => readString start (position + 6) (unitChar n :: done) (x :: r)
  | '\\' :: 'u' :: _ => .error ⟨.codeEscape, position + 1⟩
  | '\\' :: c :: r =>
    match simpleEscape? c with
    | some e => readString start (position + 2) (e :: done) r
    | none => .error ⟨.escape, position⟩
  | c :: r =>
    if c.toNat ≤ 0x1F then .error ⟨.control, position⟩
    else readString start (position + 1) (c :: done) r
termination_by cs => cs.length
decreasing_by all_goals (simp only [List.length_cons]; omega)

/-- A number at the front of a text: its digits with sign, whether it is an integer, and the rest. A
point or an exponent without a digit behind it is not part of the number. -/
def splitNumber? (cs : List Char) : Option (List Char × Bool × List Char) :=
  let (sign, body) := match cs with
    | '-' :: r => (['-'], r)
    | r => ([], r)
  let whole := match body with
    | '0' :: _ => ['0']
    | r => r.takeWhile Char.isDigit
  if whole.isEmpty then none
  else
    let rest := body.drop whole.length
    let places := match rest with
      | '.' :: r =>
        let ds := r.takeWhile Char.isDigit
        if ds.isEmpty then [] else '.' :: ds
      | _ => []
    let rest := rest.drop places.length
    let power := match rest with
      | c :: r =>
        if c = 'e' ∨ c = 'E' then
          let mark := match r with
            | '+' :: _ => ['+']
            | '-' :: _ => ['-']
            | _ => []
          let ds := (r.drop mark.length).takeWhile Char.isDigit
          if ds.isEmpty then [] else c :: mark ++ ds
        else []
      | [] => []
    some (sign ++ whole ++ places ++ power, places.isEmpty && power.isEmpty,
      rest.drop power.length)

/-- The value of a number that was split off. -/
def numberOf (digits : List Char) (integer : Bool) : Scalar :=
  if integer then
    match digits with
    | '-' :: ds => .int (-(Decimal.valueOf ds : Int))
    | ds => .int (Decimal.valueOf ds)
  else
    match Decimal.read? digits with
    | some d => .float d.nearest
    | none => .null

/-- The payload of the one not-a-number that every text means. -/
def nanPayload : Nat := 1

/-- The values that are words, with their spelling. -/
def words : List (List Char × Scalar) :=
  [("null".toList, .null), ("true".toList, .bool true), ("false".toList, .bool false),
    ("NaN".toList, .float (Binary64.nan nanPayload)),
    ("Infinity".toList, .float (Binary64.infinity false)),
    ("-Infinity".toList, .float (Binary64.infinity true))]

/-- The word at the front of a text. -/
def readWord? (position : Nat) (cs : List Char) : Option (Read Tree) :=
  (words.find? fun w => w.1.isPrefixOf cs).map fun (word, s) =>
    ⟨.scalar s, position + word.length, cs.drop word.length⟩

/-- A word or a number at the front of a text. -/
def readPlain (position : Nat) (cs : List Char) : Except Fault (Read Tree) :=
  match readWord? position cs with
  | some r => .ok r
  | none =>
    match splitNumber? cs with
    | some (digits, integer, rest) =>
      .ok ⟨.scalar (numberOf digits integer), position + digits.length, rest⟩
    | none => .error ⟨.value, position⟩

mutual

/-- One value at the front of a text. The fuel bounds the nesting and the number of parts; twice the
length of the text is always enough. -/
def readValue : Nat → Nat → List Char → Except Fault (Read Tree)
  | 0, position, _ => .error ⟨.value, position⟩
  | fuel + 1, position, cs =>
    match cs with
    | '"' :: r => do
      let s ← readString position (position + 1) [] r
      return ⟨.str (String.ofList s.value), s.position, s.rest⟩
    | '[' :: r => do
      let (position, rest) := skipBlanks (position + 1) r
      match rest with
      | ']' :: rest => return ⟨.seq [], position + 1, rest⟩
      | rest =>
        let items ← readItems fuel position rest
        return ⟨.seq items.value, items.position, items.rest⟩
    | '\x7b' :: r => do
      let (position, rest) := skipBlanks (position + 1) r
      match rest with
      | '\x7d' :: rest => return ⟨.map [], position + 1, rest⟩
      | rest =>
        let pairs ← readPairs fuel position rest
        return ⟨.map (Table.ofPairs pairs.value), pairs.position, pairs.rest⟩
    | cs => readPlain position cs

/-- The items of a sequence up to its closing bracket. -/
def readItems : Nat → Nat → List Char → Except Fault (Read (List Tree))
  | 0, position, _ => .error ⟨.value, position⟩
  | fuel + 1, position, cs => do
    let item ← readValue fuel position cs
    let (position, rest) := skipBlanks item.position item.rest
    match rest with
    | ']' :: rest => return ⟨[item.value], position + 1, rest⟩
    | ',' :: rest =>
      let (position, rest) := skipBlanks (position + 1) rest
      let items ← readItems fuel position rest
      return ⟨item.value :: items.value, items.position, items.rest⟩
    | _ => throw ⟨.comma, position⟩

/-- The entries of a mapping up to its closing brace. -/
def readPairs : Nat → Nat → List Char → Except Fault (Read (List (Scalar × Tree)))
  | 0, position, _ => .error ⟨.value, position⟩
  | fuel + 1, position, cs =>
    match cs with
    | '"' :: r => do
      let name ← readString position (position + 1) [] r
      let (position, rest) := skipBlanks name.position name.rest
      match rest with
      | ':' :: rest =>
        let (position, rest) := skipBlanks (position + 1) rest
        let item ← readValue fuel position rest
        let entry := (Scalar.str (String.ofList name.value), item.value)
        let (position, rest) := skipBlanks item.position item.rest
        match rest with
        | '\x7d' :: rest => return ⟨[entry], position + 1, rest⟩
        | ',' :: rest =>
          let (position, rest) := skipBlanks (position + 1) rest
          let pairs ← readPairs fuel position rest
          return ⟨entry :: pairs.value, pairs.position, pairs.rest⟩
        | _ => throw ⟨.comma, position⟩
      | _ => throw ⟨.colon, position⟩
    | _ => throw ⟨.name, position⟩

end

/-- **The value that a text writes.** -/
def read (text : List Char) : Except Fault Tree :=
  match text with
  | '\ufeff' :: _ => .error ⟨.mark, 0⟩
  | text => do
    let (position, rest) := skipBlanks 0 text
    let item ← readValue (2 * text.length + 2) position rest
    let (position, rest) := skipBlanks item.position item.rest
    if rest.isEmpty then return item.value else throw ⟨.extra, position⟩

end Compliance.Json
