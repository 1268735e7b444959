import Compliance.Yaml.Cursor

/-! # Plain scalars

A plain scalar goes on as long as its lines are indented deeper than the block around it. Spaces
inside a line are kept; a line break between two lines folds to a space, and further breaks are
kept. A tab ends it, and so do a colon in front of a blank, a hash behind one, and inside brackets
the marks of flow collections.
-/

namespace Compliance.Yaml.Cursor

/-- Ends a plain scalar inside brackets. -/
def isFlowMark (c : Char) : Bool := c == ',' || c == '?' || c == '[' || c == ']' || c == '\x7b' ||
  c == '\x7d'

/-- Behind a colon inside brackets, ends the scalar in front of the colon. -/
def isFlowClose (c : Char) : Bool := isFlowMark c && c != '?'

/-- The piece of a plain scalar at the front of the characters, up to a blank or a mark. -/
def plainPiece (flow : Bool) : List Char → List Char
  | [] => []
  | ch :: r =>
    if isBlank ch || isBreak ch || flow && isFlowMark ch then []
    else if ch == ':' then
      match r with
      | [] => []
      | next :: _ =>
        if isBlank next || isBreak next || flow && isFlowClose next then []
        else ch :: plainPiece flow r
    else ch :: plainPiece flow r

/-- What lies between two pieces of a plain scalar. -/
structure PlainGap where
  text : List Char
  behind : Cursor
  broken : Bool

/-- The breaks behind the first line break of a gap; `none` if they lead to a border between
documents. -/
def plainBreaks : Nat → List Char → Cursor → Option (List Char) × Cursor
  | 0, done, c => (some done, c)
  | fuel + 1, done, c =>
    match c.peek with
    | some ' ' => plainBreaks fuel done c.advance
    | some ch =>
      if isBreak ch then
        let (text, c) := c.lineBreak
        if c.atBorder then (none, c) else plainBreaks fuel (done ++ text) c
      else (some done, c)
    | none => (some done, c)

/-- The gap at the front: spaces, or folded line breaks. -/
def plainGap (c : Cursor) : PlainGap :=
  let (spaces, c) := c.takeWhile (· == ' ')
  if c.peek.any isBreak then
    let (first, c) := c.lineBreak
    if c.atBorder then ⟨[], c, true⟩
    else
      match plainBreaks (c.rest.length + 1) [] c with
      | (none, c) => ⟨[], c, true⟩
      | (some more, c) =>
        let fold := if first != ['\n'] then first else if more.isEmpty then [' '] else []
        ⟨fold ++ more, c, true⟩
  else ⟨spaces, c, false⟩

/-- A scalar that was read. Behind one whose last gap held a line break a key may begin. -/
structure PlainScalar where
  text : List Char
  behind : Cursor
  keyAllowed : Bool

/-- The plain scalar at the front, behind the text `done` and the gap `gap`. -/
def plainFrom (flow : Bool) (indent : Int) : Nat → List Char → PlainGap → PlainScalar
  | 0, done, gap => ⟨done, gap.behind, gap.broken⟩
  | fuel + 1, done, gap =>
    let c := gap.behind
    let piece := if c.peek == some '#' then [] else plainPiece flow c.rest
    if piece.isEmpty then ⟨done, c, gap.broken⟩
    else
      let done := done ++ gap.text ++ piece
      let next := plainGap (c.advanceBy piece.length)
      if next.text.isEmpty || next.behind.peek == some '#' ||
          !flow && decide ((next.behind.column : Int) < indent) then
        ⟨done, next.behind, next.broken⟩
      else plainFrom flow indent fuel done next

/-- The plain scalar at the front, in a block indented to `indent`. -/
def plainScalar (c : Cursor) (flow : Bool) (indent : Int) : PlainScalar :=
  plainFrom flow (indent + 1) (c.rest.length + 1) [] ⟨[], c, false⟩

end Compliance.Yaml.Cursor
