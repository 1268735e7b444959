/-! # Lines on a terminal

Messages are printed as they are, but for what a terminal would act on: some control characters are
dropped, and tabs become blanks up to the next column that is a multiple of eight. A backslash in
front of a bracket that begins no tag is dropped, and a single backslash at the end is doubled.
-/

namespace Compliance.CommandLine

/-- The first character of a tag in brackets. -/
def beginsTag (c : Char) : Bool := ('a' ≤ c && c ≤ 'z') || c == '#' || c == '/' || c == '@'

/-- The length of the tag behind an opening bracket: up to the next closing bracket, without another
opening one. -/
def tagLength? : List Char → Option Nat
  | [] => none
  | c :: r =>
    if beginsTag c then
      let body := r.takeWhile fun c => c != '[' && c != ']'
      match r.drop body.length with
      | ']' :: _ => some (body.length + 2)
      | _ => none
    else none

/-- The characters without the backslash in front of a bracket that begins no tag. -/
def plainBrackets : List Char → List Char
  | [] => []
  | '\\' :: '[' :: r =>
    if (tagLength? r).isSome then '\\' :: '[' :: plainBrackets r else '[' :: plainBrackets r
  | c :: r => c :: plainBrackets r

/-- A single backslash at the end is doubled. -/
def doubleLast (cs : List Char) : List Char :=
  match cs.reverse with
  | '\\' :: '\\' :: _ => cs
  | '\\' :: _ => cs ++ ['\\']
  | _ => cs

/-- Characters that are not printed. -/
def isDropped (c : Char) : Bool :=
  c == '\x07' || c == '\x08' || c == '\x0b' || c == '\x0c' || c == '\r'

/-- Inclusive ranges of code points that take two columns. -/
def wide : List (Nat × Nat) :=
  [(0x1100, 0x115F), (0x2E80, 0x303E), (0x3041, 0x33FF), (0x3400, 0x4DBF), (0x4E00, 0x9FFF),
    (0xA000, 0xA4CF), (0xA960, 0xA97F), (0xAC00, 0xD7A3), (0xF900, 0xFAFF), (0xFE30, 0xFE6F),
    (0xFF00, 0xFF60), (0xFFE0, 0xFFE6), (0x1F300, 0x1F64F), (0x1F900, 0x1F9FF),
    (0x20000, 0x3FFFD)]

def columnsOf (c : Char) : Nat :=
  let n := c.toNat
  if wide.any fun (lo, hi) => lo ≤ n && n ≤ hi then 2
  else if 0x300 ≤ n && n ≤ 0x36F then 0
  else 1

/-- The characters with blanks for tabs, from a column on. -/
def expandTabs (column : Nat) : List Char → List Char
  | [] => []
  | '\n' :: r => '\n' :: expandTabs 0 r
  | '\t' :: r =>
    let next := (column / 8 + 1) * 8
    List.replicate (next - column) ' ' ++ expandTabs next r
  | c :: r => c :: expandTabs (column + columnsOf c) r

/-- A line as it is printed: what the program says, and then a text from outside. -/
def printed (lead text : String) : String :=
  let cs := lead.toList ++ (plainBrackets (doubleLast text.toList)).filter fun c => !isDropped c
  String.ofList (expandTabs 0 cs) ++ "\n"

end Compliance.CommandLine
