import Compliance.Text.Digits
import Compliance.Text.Utf8
import Compliance.Yaml.Token

/-! # Anchors, tags and directives

* `anchorName`: the name of an anchor or an alias.
* `tagText`: a tag in angle brackets, a lone exclamation mark, or a suffix behind a handle.
* `directive`: a line that begins with a percent sign.
-/

namespace Compliance.Yaml.Cursor

/-- The name behind the mark of an anchor or an alias. -/
def anchorName (c : Cursor) : Except Fault (String × Cursor) :=
  let (name, c) := c.advance.takeWhile isNameChar
  let closed := c.endsOr 0 fun ch =>
    isBlank ch || isBreak ch || "?:,]\x7d%@`".toList.contains ch
  if name.isEmpty || !closed then .error .malformed else .ok (String.ofList name, c)

/-- A character of the address part of a tag. -/
def isAddressChar (c : Char) : Bool :=
  c.isAlphanum || "-;/?:@&=+$,_.!~*'()[]%".toList.contains c

/-- The bytes of the percent escapes at the front, and what is left. -/
def escapedBytes : List Char → Except Fault (List UInt8 × List Char)
  | '%' :: a :: b :: r =>
    match Text.hexValue? a, Text.hexValue? b with
    | some hi, some lo => do
      let (bytes, rest) ← escapedBytes r
      return (UInt8.ofNat (hi * 16 + lo) :: bytes, rest)
    | _, _ => .error .malformed
  | '%' :: _ => .error .malformed
  | r => .ok ([], r)

/-- The characters of an address whose percent escapes are read as UTF-8. -/
def unescape : Nat → List Char → Except Fault (List Char)
  | 0, _ => .error .malformed
  | _, [] => .ok []
  | fuel + 1, '%' :: r => do
    let (bytes, rest) ← escapedBytes ('%' :: r)
    match Utf8.decode bytes with
    | .ok cs => return cs ++ (← unescape fuel rest)
    | .error _ => throw .malformed
  | fuel + 1, c :: r => do return c :: (← unescape fuel r)

/-- The address at the front, which may not be empty. -/
def address (c : Cursor) : Except Fault (String × Cursor) := do
  let (cs, c) := c.takeWhile isAddressChar
  if cs.isEmpty then throw .malformed
  return (String.ofList (← unescape (cs.length + 1) cs), c)

/-- The handle at the front: an exclamation mark, or a name between two. -/
def handle (c : Cursor) : Except Fault (String × Cursor) :=
  if c.peek != some '!' then .error .malformed
  else if c.peekAt 1 == some ' ' then .ok ("!", c.advance)
  else
    let (name, behind) := c.advance.takeWhile isNameChar
    if behind.peek == some '!' then
      .ok (String.ofList ('!' :: name ++ ['!']), behind.advance)
    else .error .malformed

/-- A further exclamation mark stands in the word at the front. -/
def hasHandle (c : Cursor) : Bool :=
  ((c.advance.front fun ch => ch != ' ' && !isBreak ch).contains '!')

def tagText (c : Cursor) : Except Fault (TagText × Cursor) := do
  let (text, c) ←
    if c.peekAt 1 == some '<' then do
      let (suffix, c) ← address (c.advanceBy 2)
      if c.peek != some '>' then throw .malformed
      pure ((⟨none, suffix⟩ : TagText), c.advance)
    else if c.spacedAt 1 then pure ((⟨none, "!"⟩ : TagText), c.advance)
    else if hasHandle c then do
      let (h, c) ← handle c
      let (suffix, c) ← address c
      pure ((⟨some h, suffix⟩ : TagText), c)
    else do
      let (suffix, c) ← address c.advance
      pure ((⟨some "!", suffix⟩ : TagText), c)
  if c.wordEnds then return (text, c) else throw .malformed

def number (c : Cursor) : Except Fault (Nat × Cursor) :=
  let (ds, c) := c.takeWhile Char.isDigit
  if ds.isEmpty then .error .malformed
  else .ok (ds.foldl (fun n d => 10 * n + (d.toNat - 48)) 0, c)

/-- The version behind a version directive. -/
def versionDirective (c : Cursor) : Except Fault (Directive × Cursor) := do
  let (major, c) ← number c.skipSpaces
  if c.peek != some '.' then throw .malformed
  let (_, c) ← number c.advance
  if c.wordEnds then return (.version major, c) else throw .malformed

/-- The handle and the address behind a tag directive. -/
def handleDirective (c : Cursor) : Except Fault (Directive × Cursor) := do
  let (h, c) ← handle c.skipSpaces
  if c.peek != some ' ' then throw .malformed
  let (lead, c) ← address c.skipSpaces
  if c.wordEnds then return (.handle h lead, c) else throw .malformed

/-- The directive that begins at the percent sign at the front; the rest of its line is blank. -/
def directive (c : Cursor) : Except Fault (Directive × Cursor) := do
  let (name, c) := c.advance.takeWhile isNameChar
  if name.isEmpty || !c.wordEnds then throw .malformed
  let (d, c) ←
    if name == "YAML".toList then versionDirective c
    else if name == "TAG".toList then handleDirective c
    else pure (Directive.other, c.skip fun ch => !isBreak ch)
  return (d, ← c.finishLine)

end Compliance.Yaml.Cursor
