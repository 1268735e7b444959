import Compliance.Calendar

/-! # Walking through a YAML text

A cursor is the rest of a text together with its place: how many characters lie behind it, and the
line and the column of the next one.

* `Cursor.advance`: one character on. Every line break begins a new line; a byte order mark takes no
  column.
* `Cursor.takeWhile`: the characters of a class at the front, and the cursor behind them.
* `Cursor.lineBreak`: the break at the front as it counts in a value: a line feed, but the line and
  paragraph separators as themselves.
-/

namespace Compliance.Yaml

/-- Why a text is no YAML document, or a document has no value. -/
inductive Fault where
  | malformed
  | codePoint (n : Nat)
  | calendar (fault : CalendarFault)
  | integer (base : Nat) (text : String)
  | float (text : String)
  | emptyNumber
  | boolean (text : String)
  | timestamp (text : String)
  | timestampCollection
  | overflow
  | recursive
deriving DecidableEq, Repr

/-- A line break of YAML 1.1. -/
def isBreak (c : Char) : Bool :=
  c == '\n' || c == '\r' || c == '\x85' || c == '\u2028' || c == '\u2029'

/-- A blank inside a line. -/
def isBlank (c : Char) : Bool := c == ' ' || c == '\t'

/-- A character of a name: an ASCII letter or digit, a hyphen or an underscore. -/
def isNameChar (c : Char) : Bool := c.isAlphanum || c == '-' || c == '_'

/-- The rest of a text and its place. -/
structure Cursor where
  rest : List Char
  index : Nat
  line : Nat
  column : Nat

namespace Cursor

def ofText (text : List Char) : Cursor := ⟨text, 0, 0, 0⟩

def peek (c : Cursor) : Option Char := c.rest.head?

def peekAt (c : Cursor) (n : Nat) : Option Char := c.rest[n]?

/-- The end of the text, or a character that passes the test, `n` places on. -/
def endsOr (c : Cursor) (n : Nat) (test : Char → Bool) : Bool :=
  match c.peekAt n with
  | none => true
  | some ch => test ch

/-- The end of the text, a blank or a line break `n` places on. -/
def spacedAt (c : Cursor) (n : Nat) : Bool := c.endsOr n fun ch => isBlank ch || isBreak ch

/-- The end of the text, a space or a line break: where a word of a directive, a tag or a header has
to end. -/
def wordEnds (c : Cursor) : Bool := c.endsOr 0 fun ch => ch == ' ' || isBreak ch

/-- The end of the text or a line break. -/
def lineEnds (c : Cursor) : Bool := c.endsOr 0 isBreak

/-- One character on. -/
def advance (c : Cursor) : Cursor :=
  match c.rest with
  | [] => c
  | ch :: r =>
    if isBreak ch && !(ch == '\r' && r.head? == some '\n') then ⟨r, c.index + 1, c.line + 1, 0⟩
    else if ch == '\ufeff' then ⟨r, c.index + 1, c.line, c.column⟩
    else ⟨r, c.index + 1, c.line, c.column + 1⟩

def advanceBy (c : Cursor) : Nat → Cursor
  | 0 => c
  | n + 1 => c.advance.advanceBy n

/-- The characters at the front that pass the test. -/
def front (c : Cursor) (test : Char → Bool) : List Char := c.rest.takeWhile test

/-- Behind the characters at the front that pass the test. -/
def skip (c : Cursor) (test : Char → Bool) : Cursor := c.advanceBy (c.front test).length

/-- The characters at the front that pass the test, and the cursor behind them. -/
def takeWhile (c : Cursor) (test : Char → Bool) : List Char × Cursor := (c.front test, c.skip test)

/-- Behind the spaces at the front. -/
def skipSpaces (c : Cursor) : Cursor := c.skip (· == ' ')

/-- Behind a comment at the front, if there is one. -/
def skipComment (c : Cursor) : Cursor :=
  if c.peek == some '#' then c.skip fun ch => !isBreak ch else c

/-- The line break at the front as it counts in a value, and the cursor behind it. -/
def lineBreak (c : Cursor) : List Char × Cursor :=
  match c.rest with
  | '\r' :: '\n' :: _ => (['\n'], c.advanceBy 2)
  | ch :: _ =>
    if ch == '\u2028' || ch == '\u2029' then ([ch], c.advance)
    else if isBreak ch then (['\n'], c.advance)
    else ([], c)
  | [] => ([], c)

/-- Behind spaces, a comment and the line break that have to end a line. -/
def finishLine (c : Cursor) : Except Fault Cursor :=
  let c := c.skipSpaces.skipComment
  if c.lineEnds then .ok c.lineBreak.2 else .error .malformed

/-- Three hyphens or three points that stand for themselves: a border between documents, if they
begin a line. -/
def atBorder (c : Cursor) : Bool :=
  let lead := c.rest.take 3
  (lead == ['-', '-', '-'] || lead == ['.', '.', '.']) && c.spacedAt 3

end Cursor

end Compliance.Yaml
