import Compliance.Yaml.Token.Block
import Compliance.Yaml.Token.Mark
import Compliance.Yaml.Token.Plain
import Compliance.Yaml.Token.Quoted

/-! # The token stream of a text

A text is read token by token. Whether a scalar is a key shows only at the colon behind it, so the
place of every node that may be a key is kept, one for each level of brackets, and the `key` mark is
spliced in there later. A key has to end on its line and within 1024 characters.

* `Scan`: the tokens so far, the indentation of the blocks around, and the open key places.
* `Scan.token`: one more token.
* `Token.stream`: all tokens of a text. Where the text stops being YAML the last token is `broken`.
-/

namespace Compliance.Yaml

/-- A place where a key may have begun: its position in the token list and in the text. It is
required if nothing but a key can stand there. -/
structure KeyPlace where
  position : Nat
  required : Bool
  index : Nat
  line : Nat
  column : Nat

/-- A text read in part. `flow` and `keys` have an entry for each level of brackets, inner ones
first; `indents` are the indentations of the blocks around, the innermost first. -/
structure Scan where
  cursor : Cursor
  tokens : Array Token
  indents : List Int
  keyAllowed : Bool
  flow : Nat
  keys : List (Option KeyPlace)

namespace Scan

/-- A text of which nothing is read. -/
def ofText (text : List Char) : Scan := ⟨Cursor.ofText text, #[], [], true, 0, [none]⟩

def indent (s : Scan) : Int := s.indents.headD (-1)

/-- The next token stands inside brackets. -/
def inFlow (s : Scan) : Bool := s.flow != 0

/-- One more token at the place of the cursor. -/
def push (s : Scan) (t : Token) : Scan := { s with tokens := s.tokens.push t }

def column (s : Scan) : Int := s.cursor.column

/-- Spaces, comments and line breaks in front of the next token. Behind a line break outside of
brackets a key may begin. -/
def skipBetween : Nat → Scan → Scan
  | 0, s => s
  | fuel + 1, s =>
    let c := s.cursor.skipSpaces.skipComment
    if c.peek.any isBreak then
      skipBetween fuel
        { s with cursor := c.lineBreak.2, keyAllowed := s.keyAllowed || !s.inFlow }
    else { s with cursor := c }

/-- A key place that the next token comes too late for. -/
def isStale (s : Scan) (k : KeyPlace) : Bool :=
  k.line != s.cursor.line || decide (1024 < s.cursor.index - k.index)

/-- Forgets the key places that are too far behind; a required one is missed. -/
def dropStale (s : Scan) : Except Fault Scan :=
  let stale := fun (k : Option KeyPlace) => k.any s.isStale
  if s.keys.any fun k => stale k && k.any (·.required) then .error .malformed
  else .ok { s with keys := s.keys.map fun k => if stale k then none else k }

/-- Forgets the key place of the innermost level; a required one is missed. -/
def dropKey (s : Scan) : Except Fault Scan :=
  match s.keys with
  | some k :: r => if k.required then .error .malformed else .ok { s with keys := none :: r }
  | _ => .ok s

/-- The next token may begin a key. -/
def saveKey (s : Scan) : Except Fault Scan :=
  if s.keyAllowed then do
    let s ← s.dropKey
    let c := s.cursor
    let place : KeyPlace :=
      { position := s.tokens.size
        required := !s.inFlow && decide (s.indent = s.column)
        index := c.index, line := c.line, column := c.column }
    return { s with keys := some place :: s.keys.tail }
  else .ok s

/-- Closes the blocks that are indented deeper than a column. -/
def closeBlocks (s : Scan) (column : Int) : Scan :=
  if s.inFlow then s
  else
    let closed := s.indents.takeWhile fun i => decide (column < i)
    { s with
      indents := s.indents.drop closed.length
      tokens := closed.foldl (fun ts _ => ts.push .blockEnd) s.tokens }

/-- Opens a block at a column, unless one is open there; `at_` is the place of its first token. -/
def openBlock (s : Scan) (column : Int) (at_ : Nat) (start : Token) : Scan :=
  if s.indent < column then
    { s with
      indents := column :: s.indents
      tokens := s.tokens.insertIdxIfInBounds at_ start }
  else s

/-- The end of all blocks, in front of a border between documents or the end. -/
def closeAll (s : Scan) : Except Fault Scan := do
  let s ← (s.closeBlocks (-1)).dropKey
  return { s with keyAllowed := false }

/-- A token of `n` characters that needs no more than its place. -/
def mark (s : Scan) (n : Nat) (t : Token) : Scan :=
  { s with cursor := s.cursor.advanceBy n, tokens := s.tokens.push t }

/-- An opening bracket. -/
def openFlow (s : Scan) (t : Token) : Except Fault Scan := do
  let s ← s.saveKey
  return { s.mark 1 t with flow := s.flow + 1, keys := none :: s.keys, keyAllowed := true }

/-- A closing bracket. -/
def closeFlow (s : Scan) (t : Token) : Except Fault Scan := do
  if !s.inFlow then throw .malformed
  let s ← s.dropKey
  return { s.mark 1 t with flow := s.flow - 1, keys := s.keys.tail, keyAllowed := false }

/-- A comma between items in brackets. -/
def flowEntry (s : Scan) : Except Fault Scan := do
  let s ← s.dropKey
  return { s.mark 1 .flowEntry with keyAllowed := true }

/-- A hyphen in front of an item of a block sequence. -/
def blockEntry (s : Scan) : Except Fault Scan := do
  let s ←
    if s.inFlow then pure s
    else if s.keyAllowed then
      pure (s.openBlock s.column s.tokens.size .blockSequenceStart)
    else throw .malformed
  let s ← s.dropKey
  return { s.mark 1 .blockEntry with keyAllowed := true }

/-- A question mark in front of a key. -/
def explicitKey (s : Scan) : Except Fault Scan := do
  let s ←
    if s.inFlow then pure s
    else if s.keyAllowed then
      pure (s.openBlock s.column s.tokens.size .blockMappingStart)
    else throw .malformed
  let s ← s.dropKey
  return { s.mark 1 .key with keyAllowed := !s.inFlow }

/-- A colon. Behind a key place it makes a key of what began there; a mapping may begin there
too. -/
def keyValue (s : Scan) : Except Fault Scan := do
  match s.keys with
  | some k :: r =>
    let s := { s with
      keys := none :: r
      tokens := s.tokens.insertIdxIfInBounds k.position .key }
    let s := if s.inFlow then s else s.openBlock k.column k.position .blockMappingStart
    return { s.mark 1 .value with keyAllowed := false }
  | _ =>
    let s ←
      if s.inFlow then pure s
      else if s.keyAllowed then
        pure (s.openBlock s.column s.tokens.size .blockMappingStart)
      else throw .malformed
    let s ← s.dropKey
    return { s.mark 1 .value with keyAllowed := !s.inFlow }

/-- A token that may begin a key, with the cursor behind it. -/
def node (s : Scan) (read : Cursor → Except Fault (Token × Cursor)) : Except Fault Scan := do
  let s ← s.saveKey
  let (t, c) ← read s.cursor
  return { s with cursor := c, keyAllowed := false, tokens := s.tokens.push t }

/-- A block scalar, behind which a key may begin. -/
def block (s : Scan) (folded : Bool) : Except Fault Scan := do
  let s ← s.dropKey
  let (text, c) ← s.cursor.blockScalar folded s.indent
  return { s with
    cursor := c, keyAllowed := true
    tokens := s.tokens.push (.scalar (String.ofList text) false) }

/-- A plain scalar. -/
def plain (s : Scan) : Except Fault Scan := do
  let s ← s.saveKey
  let p := s.cursor.plainScalar s.inFlow s.indent
  return { s with
    cursor := p.behind, keyAllowed := p.keyAllowed
    tokens := s.tokens.push (.scalar (String.ofList p.text) true) }

/-- A mark that is one only in front of a blank, or anywhere inside brackets. -/
def isMarkHere (s : Scan) : Bool := s.inFlow || s.cursor.spacedAt 1

/-- Characters that begin no plain scalar. -/
def reserved : List Char := "-?:,[]\x7b\x7d#&*!|>'\"%@`".toList

def beginsPlain (s : Scan) (ch : Char) : Bool :=
  !isBlank ch && !isBreak ch && !reserved.contains ch ||
    !s.cursor.spacedAt 1 && (ch == '-' || !s.inFlow && (ch == '?' || ch == ':'))

def quotedToken (double : Bool) (c : Cursor) : Except Fault (Token × Cursor) := do
  let (text, c) ← c.quotedScalar double
  return (.scalar (String.ofList text) false, c)

/-- The token that begins with a character. -/
def token (s : Scan) (ch : Char) : Except Fault Scan := do
  let lineStart := s.cursor.column == 0
  if lineStart && ch == '%' then
    let s ← s.closeAll
    let (d, c) ← s.cursor.directive
    return { s.push (.directive d) with cursor := c }
  else if lineStart && s.cursor.atBorder then
    return (← s.closeAll).mark 3 (if ch == '-' then .documentStart else .documentEnd)
  else if ch == '[' then s.openFlow .flowSequenceStart
  else if ch == '\x7b' then s.openFlow .flowMappingStart
  else if ch == ']' then s.closeFlow .flowSequenceEnd
  else if ch == '\x7d' then s.closeFlow .flowMappingEnd
  else if ch == ',' then s.flowEntry
  else if ch == '-' && s.cursor.spacedAt 1 then s.blockEntry
  else if ch == '?' && s.isMarkHere then s.explicitKey
  else if ch == ':' && s.isMarkHere then s.keyValue
  else if ch == '*' then
    s.node fun c => do let (name, c) ← c.anchorName; return (.alias name, c)
  else if ch == '&' then
    s.node fun c => do let (name, c) ← c.anchorName; return (.anchor name, c)
  else if ch == '!' then
    s.node fun c => do let (text, c) ← c.tagText; return (.tag text, c)
  else if ch == '|' && !s.inFlow then s.block false
  else if ch == '>' && !s.inFlow then s.block true
  else if ch == '\'' then s.node (quotedToken false)
  else if ch == '"' then s.node (quotedToken true)
  else if s.beginsPlain ch then s.plain
  else throw .malformed

/-- In front of the next token, with `fuel` for the lines on the way: key places that are too far
behind are forgotten, and deeper blocks are closed. -/
def approach (fuel : Nat) (s : Scan) : Except Fault Scan := do
  let s ← (skipBetween fuel s).dropStale
  return s.closeBlocks s.column

/-- The number of tokens in front of the first open key place; the others wait for what follows. -/
def settled (s : Scan) : Nat := (s.keys.filterMap (·.map (·.position))).foldl min s.tokens.size

/-- The tokens of the rest of a text. Every token takes a character at least. A fault comes in front
of the tokens that wait for what follows. -/
def finish : Nat → Scan → Array Token
  | 0, s => s.tokens.push (.broken .malformed)
  | fuel + 1, s =>
    match s.approach (fuel + 1) with
    | .error e => s.tokens.push (.broken e)
    | .ok s =>
      match s.cursor.peek with
      | none =>
        match s.closeAll with
        | .error e => s.tokens.push (.broken e)
        | .ok s => s.tokens.push .streamEnd
      | some ch =>
        match s.token ch with
        | .error e => (s.tokens.take s.settled).push (.broken e)
        | .ok s => finish fuel s

end Scan

/-- A character that may stand in a text. -/
def isPrintable (c : Char) : Bool :=
  let n := c.toNat
  n == 0x09 || n == 0x0A || n == 0x0D || n == 0x85 || (0x20 ≤ n && n ≤ 0x7E) ||
    (0xA0 ≤ n && n ≤ 0xFFFD) || 0x10000 ≤ n

/-- **The tokens of a text.** A byte order mark in front means nothing. -/
def Token.stream (text : List Char) : List Token :=
  if text.all isPrintable then
    let s := Scan.ofText text
    let s := if text.head? == some '\ufeff' then { s with cursor := s.cursor.advance } else s
    (s.finish (text.length + 2)).toList
  else [.broken .malformed]

end Compliance.Yaml
