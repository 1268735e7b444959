import Compliance.Yaml.Cursor

/-! # Block scalars

A block scalar is the lines below its header that are indented as deep as its first line, or as deep
as the header says. A literal keeps its breaks; a folded one turns the break between two lines that
begin with no blank into a space, or drops it in front of empty lines. The header also says what
becomes of the breaks at the end: one is kept by default, none or all if it says so.
-/

namespace Compliance.Yaml.Cursor

/-- What becomes of the line breaks at the end. -/
inductive Chomping where
  | strip
  | clip
  | keep
deriving DecidableEq

/-- The chomping mark at the front. -/
def chomping? (c : Cursor) : Option Chomping :=
  match c.peek with
  | some '+' => some .keep
  | some '-' => some .strip
  | _ => none

/-- The indentation digit at the front; zero is none. -/
def indentDigit? (c : Cursor) : Except Fault (Option Nat) :=
  match c.peek with
  | some ch =>
    if ch.isDigit then if ch == '0' then .error .malformed else .ok (some (ch.toNat - '0'.toNat))
    else .ok none
  | none => .ok none

/-- The marks of a header, in either order, and the rest of its line. -/
def blockHeader (c : Cursor) : Except Fault (Chomping × Option Nat × Cursor) := do
  let (chomping, digit, c) ←
    match c.chomping? with
    | some chomping => do
      let c := c.advance
      match ← c.indentDigit? with
      | some n => pure (chomping, some n, c.advance)
      | none => pure (chomping, none, c)
    | none => do
      match ← c.indentDigit? with
      | some n =>
        let c := c.advance
        match c.chomping? with
        | some chomping => pure (chomping, some n, c.advance)
        | none => pure (.clip, some n, c)
      | none => pure (.clip, none, c)
  if !c.wordEnds then throw .malformed
  return (chomping, digit, ← c.finishLine)

/-- The empty lines at the front of a scalar without a given indentation: their breaks, and the
deepest column that their spaces reach. -/
def blockLead : Nat → List Char → Nat → Cursor → List Char × Nat × Cursor
  | 0, done, deepest, c => (done, deepest, c)
  | fuel + 1, done, deepest, c =>
    match c.peek with
    | some ' ' =>
      let c := c.advance
      blockLead fuel done (max deepest c.column) c
    | some ch =>
      if isBreak ch then
        let (text, c) := c.lineBreak
        blockLead fuel (done ++ text) deepest c
      else (done, deepest, c)
    | none => (done, deepest, c)

/-- Spaces up to the indentation. -/
def toIndent (indent : Nat) : Nat → Cursor → Cursor
  | 0, c => c
  | fuel + 1, c =>
    if decide (c.column < indent) && c.peek == some ' ' then toIndent indent fuel c.advance else c

/-- The breaks of the empty lines at the front, and the cursor at the indentation of the next. -/
def blockBreaks (indent : Nat) : Nat → List Char → Cursor → List Char × Cursor
  | 0, done, c => (done, c)
  | fuel + 1, done, c =>
    let c := toIndent indent indent c
    if c.peek.any isBreak then
      let (text, c) := c.lineBreak
      blockBreaks indent fuel (done ++ text) c
    else (done, c)

/-- The lines of a scalar, behind the text `done` and the breaks `breaks` in front of the next. -/
def blockLines (folded : Bool) (chomping : Chomping) (indent : Nat) :
    Nat → List Char → List Char → List Char → Cursor → List Char × Cursor
  | 0, done, _, _, c => (done, c)
  | fuel + 1, done, last, breaks, c =>
    if c.column = indent ∧ c.peek.isSome then
      let text := !c.peek.any isBlank
      let (line, c) := c.takeWhile fun ch => !isBreak ch
      let done := done ++ breaks ++ line
      let (last, c) := c.lineBreak
      let (breaks, c) := blockBreaks indent (c.rest.length + 1) [] c
      if c.column = indent ∧ c.peek.isSome then
        let fold :=
          if folded && last == ['\n'] && text && !c.peek.any isBlank then
            if breaks.isEmpty then [' '] else []
          else last
        blockLines folded chomping indent fuel (done ++ fold) [] breaks c
      else (finish done last breaks, c)
    else (finish done last breaks, c)
where
  /-- The text with the breaks at its end as the header wants them. -/
  finish (done last breaks : List Char) : List Char :=
    match chomping with
    | .strip => done
    | .clip => done ++ last
    | .keep => done ++ last ++ breaks

/-- The block scalar at the front, in a block indented to `indent`. -/
def blockScalar (c : Cursor) (folded : Bool) (indent : Int) :
    Except Fault (List Char × Cursor) := do
  let (chomping, digit, c) ← c.advance.blockHeader
  let least := (max (indent + 1) 1).toNat
  let fuel := c.rest.length + 1
  match digit with
  | some n =>
    let depth := least + n - 1
    let (breaks, c) := blockBreaks depth fuel [] c
    return blockLines folded chomping depth fuel [] [] breaks c
  | none =>
    let (breaks, deepest, c) := blockLead fuel [] 0 c
    return blockLines folded chomping (max least deepest) fuel [] [] breaks c

end Compliance.Yaml.Cursor
