import Compliance.Text.Digits
import Compliance.Yaml.Cursor

/-! # Quoted scalars

Between single quotes a quote is written twice and nothing else is special. Between double quotes a
backslash begins an escape, and one at the end of a line takes the break away. Between either, a
line break with the blanks around it folds to a space, and further breaks are kept.
-/

namespace Compliance.Yaml.Cursor

/-- The character that an escape of one character stands for. -/
def shortEscape? (c : Char) : Option Char :=
  match c with
  | '0' => some '\x00'
  | 'a' => some '\x07'
  | 'b' => some '\x08'
  | 't' => some '\t'
  | '\t' => some '\t'
  | 'n' => some '\n'
  | 'v' => some '\x0b'
  | 'f' => some '\x0c'
  | 'r' => some '\r'
  | 'e' => some '\x1b'
  | ' ' => some ' '
  | '"' => some '"'
  | '\\' => some '\\'
  | '/' => some '/'
  | 'N' => some '\x85'
  | '_' => some '\xa0'
  | 'L' => some '\u2028'
  | 'P' => some '\u2029'
  | _ => none

/-- The number of digits of an escape by code point. -/
def escapeWidth? (c : Char) : Option Nat :=
  match c with
  | 'x' => some 2
  | 'u' => some 4
  | 'U' => some 8
  | _ => none

/-- The character of a code point; half a surrogate pair is replaced. -/
def codeChar (n : Nat) : Except Fault Char :=
  if 0x10FFFF < n then .error (.codePoint n)
  else if 0xD800 ≤ n ∧ n < 0xE000 then .ok '\ufffd'
  else .ok (Char.ofNat n)

/-- Breaks, and blanks in front of them, inside quotes. A border between documents may not stand
there. -/
def quotedBreaks : Nat → List Char → Cursor → Except Fault (List Char × Cursor)
  | 0, done, c => .ok (done, c)
  | fuel + 1, done, c =>
    if c.atBorder then .error .malformed
    else
      let c := c.skip isBlank
      if c.peek.any isBreak then
        let (text, c) := c.lineBreak
        quotedBreaks fuel (done ++ text) c
      else .ok (done, c)

/-- Blanks at the front, or the breaks to which they lead, folded. -/
def quotedGap (c : Cursor) : Except Fault (List Char × Cursor) :=
  let (blanks, c) := c.takeWhile isBlank
  match c.peek with
  | none => .error .malformed
  | some ch =>
    if isBreak ch then do
      let (first, c) := c.lineBreak
      let (more, c) ← quotedBreaks (c.rest.length + 1) [] c
      let fold := if first != ['\n'] then first else if more.isEmpty then [' '] else []
      return (fold ++ more, c)
    else .ok (blanks, c)

/-- The escape at the front, behind its backslash. -/
def escape (c : Cursor) : Except Fault (List Char × Cursor) :=
  match c.peek with
  | none => .error .malformed
  | some ch =>
    match shortEscape? ch, escapeWidth? ch with
    | some e, _ => .ok ([e], c.advance)
    | none, some width =>
      let c := c.advance
      let ds := c.rest.take width
      if ds.length = width then
        match Text.hexNumber? ds with
        | some n => do return ([← codeChar n], c.advanceBy width)
        | none => .error .malformed
      else .error .malformed
    | none, none =>
      if isBreak ch then
        let c := c.lineBreak.2
        quotedBreaks (c.rest.length + 1) [] c
      else .error .malformed

/-- The scalar from the front to its closing quote, behind the text `done`. -/
def quotedFrom (double : Bool) : Nat → List Char → Cursor → Except Fault (List Char × Cursor)
  | 0, _, _ => .error .malformed
  | fuel + 1, done, c =>
    match c.peek with
    | none => .error .malformed
    | some ch =>
      if isBlank ch || isBreak ch then do
        let (text, c) ← quotedGap c
        quotedFrom double fuel (done ++ text) c
      else if ch == '\'' && !double then
        if c.peekAt 1 == some '\'' then quotedFrom double fuel (done ++ ['\'']) (c.advanceBy 2)
        else .ok (done, c.advance)
      else if ch == '"' && double then .ok (done, c.advance)
      else if ch == '\\' && double then do
        let (text, c) ← escape c.advance
        quotedFrom double fuel (done ++ text) c
      else
        let (piece, c) := c.takeWhile fun ch =>
          !isBlank ch && !isBreak ch && ch != '"' && ch != '\'' && ch != '\\'
        if piece.isEmpty then quotedFrom double fuel (done ++ [ch]) c.advance
        else quotedFrom double fuel (done ++ piece) c

def quotedScalar (c : Cursor) (double : Bool) : Except Fault (List Char × Cursor) :=
  quotedFrom double (c.rest.length + 1) [] c.advance

end Compliance.Yaml.Cursor
