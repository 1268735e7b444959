import Compliance.Table
import Compliance.Yaml.Tag
import Compliance.Yaml.Token

/-! # The node of a document

The tokens of a text with one document make a node: scalars, sequences and mappings with their tags.
An alias stands for the node of its anchor, which has to begin in front of it; an anchor may be
given once only. An alias inside the node of its anchor is a loop. A second document is an error,
and so is any token where the grammar wants another.
-/

namespace Compliance.Yaml

/-- A node with its full tag. -/
inductive Node where
  | scalar (tag : String) (text : String)
  | seq (tag : String) (items : List Node)
  | map (tag : String) (pairs : List (Node × Node))
  | loop (anchor : String)
deriving Inhabited

namespace Node

/-- The full tag of a node; a loop gets none. -/
def tag : Node → String
  | .scalar t _ => t
  | .seq t _ => t
  | .map t _ => t
  | .loop _ => ""

/-- The node of nothing at all. -/
def empty : Node := .scalar (standardTag "null") ""

/-- The node of a scalar with the given tag; without one, or with the tag `!`, a plain scalar gets
its tag from its spelling. -/
def ofScalar (tag : Option String) (plain : Bool) (text : String) : Node :=
  match tag with
  | none => .scalar (standardTag (if plain then Plain.tagName text else "str")) text
  | some t =>
    if t = "!" then .scalar (standardTag (Plain.tagName text)) text else .scalar t text

/-- The tag of a collection. -/
def collectionTag (tag : Option String) (name : String) : String :=
  match tag with
  | none => standardTag name
  | some t => if t = "!" then standardTag name else t

/-- The tokens that are left, the nodes of the anchors so far, and the meaning of the tag handles.
The anchor of a node that is still being read has no node yet. -/
structure Rest where
  tokens : List Token
  anchors : Table String (Option Node)
  handles : Table String String

/-- A step that takes tokens. -/
abbrev Step (α : Type) := Rest → Except Fault (α × Rest)

/-- The fault at a token that the grammar does not want. -/
def unexpected {α : Type} (r : Rest) : Except Fault α :=
  match r.tokens with
  | .broken e :: _ => .error e
  | _ => .error .malformed

def Rest.drop (r : Rest) : Rest := { r with tokens := r.tokens.tail }

/-- The full tag that a written one means. -/
def fullTag (r : Rest) (t : TagText) : Except Fault String :=
  match t.handle with
  | none => .ok t.suffix
  | some h =>
    match r.handles.get? h with
    | some lead => .ok (lead ++ t.suffix)
    | none => .error .malformed

/-- What stands in front of a node: an anchor and a tag, in either order. -/
def properties (r : Rest) : Except Fault (Option String × Option String × Rest) := do
  match r.tokens with
  | .anchor a :: .tag t :: ts => return (some a, some (← fullTag r t), { r with tokens := ts })
  | .tag t :: .anchor a :: ts => return (some a, some (← fullTag r t), { r with tokens := ts })
  | .anchor a :: ts => return (some a, none, { r with tokens := ts })
  | .tag t :: ts => return (none, some (← fullTag r t), { r with tokens := ts })
  | _ => return (none, none, r)

/-- The node without the merge keys that bring itself in, which add nothing to a mapping. -/
def withoutSelf (anchor : String) : Node → Node
  | .map t pairs =>
    .map t (pairs.filter fun (k, v) =>
      match v with
      | .loop a => k.tag != standardTag "merge" || a != anchor
      | _ => true)
  | node => node

/-- Gives a node its anchor. -/
def name (anchor : Option String) (node : Node) (r : Rest) : Node × Rest :=
  match anchor with
  | some a =>
    let node := node.withoutSelf a
    (node, { r with anchors := r.anchors.insert a (some node) })
  | none => (node, r)

/-- Takes an anchor for a node that is about to be read; it may not have been given before. -/
def claim (anchor : Option String) (r : Rest) : Except Fault Rest :=
  match anchor with
  | some a =>
    if r.anchors.contains a then .error .malformed
    else .ok { r with anchors := r.anchors.insert a none }
  | none => .ok r

mutual

/-- The node at the front. Block collections may begin only where `block` holds, and entries without
indentation of their own only where `flat` holds. -/
def parse (fuel : Nat) (block flat : Bool) (r : Rest) : Except Fault (Node × Rest) :=
  match fuel with
  | 0 => unexpected r
  | fuel + 1 =>
    match r.tokens with
    | .alias a :: ts =>
      match r.anchors.get? a with
      | some (some node) => .ok (node, { r with tokens := ts })
      | some none => .ok (.loop a, { r with tokens := ts })
      | none => .error .malformed
    | _ => do
      let (anchor, tag, r) ← properties r
      let r ← claim anchor r
      match r.tokens with
      | .blockEntry :: _ =>
        if flat then
          let (items, r) ← flatItems fuel r
          return name anchor (.seq (collectionTag tag "seq") items) r
        else bare anchor tag r
      | .scalar text plain :: _ => return name anchor (ofScalar tag plain text) r.drop
      | .flowSequenceStart :: _ =>
        let (items, r) ← flowItems fuel true r.drop
        return name anchor (.seq (collectionTag tag "seq") items) r
      | .flowMappingStart :: _ =>
        let (pairs, r) ← flowPairs fuel true r.drop
        return name anchor (.map (collectionTag tag "map") pairs) r
      | .blockSequenceStart :: _ =>
        if block then
          let (items, r) ← blockItems fuel r.drop
          return name anchor (.seq (collectionTag tag "seq") items) r
        else bare anchor tag r
      | .blockMappingStart :: _ =>
        if block then
          let (pairs, r) ← blockPairs fuel r.drop
          return name anchor (.map (collectionTag tag "map") pairs) r
        else bare anchor tag r
      | _ => bare anchor tag r

/-- No content behind the properties of a node: an empty scalar, if there are any. -/
def bare (anchor tag : Option String) (r : Rest) : Except Fault (Node × Rest) :=
  if anchor.isSome || tag.isSome then .ok (name anchor (ofScalar tag true "") r) else unexpected r

/-- The items of a block sequence. -/
def blockItems (fuel : Nat) (r : Rest) : Except Fault (List Node × Rest) :=
  match fuel with
  | 0 => unexpected r
  | fuel + 1 =>
    match r.tokens with
    | .blockEnd :: _ => .ok ([], r.drop)
    | .blockEntry :: ts => do
      let r := r.drop
      let (item, r) ←
        match ts with
        | .blockEntry :: _ => pure (empty, r)
        | .blockEnd :: _ => pure (empty, r)
        | _ => parse fuel true false r
      let (items, r) ← blockItems fuel r
      return (item :: items, r)
    | _ => unexpected r

/-- The items of a sequence that is indented no deeper than the mapping around it. -/
def flatItems (fuel : Nat) (r : Rest) : Except Fault (List Node × Rest) :=
  match fuel with
  | 0 => unexpected r
  | fuel + 1 =>
    match r.tokens with
    | .blockEntry :: ts => do
      let r := r.drop
      let (item, r) ←
        match ts with
        | .blockEntry :: _ => pure (empty, r)
        | .key :: _ => pure (empty, r)
        | .value :: _ => pure (empty, r)
        | .blockEnd :: _ => pure (empty, r)
        | _ => parse fuel true false r
      let (items, r) ← flatItems fuel r
      return (item :: items, r)
    | _ => .ok ([], r)

/-- A key or a value of a block mapping behind its mark. -/
def blockPart (fuel : Nat) (r : Rest) : Except Fault (Node × Rest) :=
  match fuel with
  | 0 => unexpected r
  | fuel + 1 =>
    match r.tokens with
    | .key :: _ => .ok (empty, r)
    | .value :: _ => .ok (empty, r)
    | .blockEnd :: _ => .ok (empty, r)
    | _ => parse fuel true true r

/-- The entries of a block mapping; each begins with a key. -/
def blockPairs (fuel : Nat) (r : Rest) : Except Fault (List (Node × Node) × Rest) :=
  match fuel with
  | 0 => unexpected r
  | fuel + 1 =>
    match r.tokens with
    | .blockEnd :: _ => .ok ([], r.drop)
    | .key :: _ => do
      let (key, r) ← blockPart fuel r.drop
      let (value, r) ←
        match r.tokens with
        | .value :: _ => blockPart fuel r.drop
        | _ => pure (empty, r)
      let (pairs, r) ← blockPairs fuel r
      return ((key, value) :: pairs, r)
    | _ => unexpected r

/-- A node in brackets, which may be missing in front of a mark. -/
def flowPart (fuel : Nat) (r : Rest) : Except Fault (Node × Rest) :=
  match fuel with
  | 0 => unexpected r
  | fuel + 1 =>
    match r.tokens with
    | .value :: _ => .ok (empty, r)
    | .flowEntry :: _ => .ok (empty, r)
    | .flowSequenceEnd :: _ => .ok (empty, r)
    | .flowMappingEnd :: _ => .ok (empty, r)
    | _ => parse fuel false false r

/-- The value behind a key in brackets, if there is one. -/
def flowValue (fuel : Nat) (r : Rest) : Except Fault (Node × Rest) :=
  match fuel with
  | 0 => unexpected r
  | fuel + 1 =>
    match r.tokens with
    | .value :: .value :: _ => parse fuel false false r.drop
    | .value :: _ => flowPart fuel r.drop
    | _ => .ok (empty, r)

/-- The items of a sequence in brackets, behind a comma unless they are the first. A key makes an
item a mapping of one entry. -/
def flowItems (fuel : Nat) (first : Bool) (r : Rest) : Except Fault (List Node × Rest) :=
  match fuel with
  | 0 => unexpected r
  | fuel + 1 =>
    match r.tokens with
    | .flowSequenceEnd :: _ => .ok ([], r.drop)
    | _ => do
      let r ←
        if first then pure r
        else
          match r.tokens with
          | .flowEntry :: _ => pure r.drop
          | _ => unexpected r
      match r.tokens with
      | .key :: _ =>
        let (key, r) ← flowPart fuel r.drop
        let (value, r) ← flowValue fuel r
        let (items, r) ← flowItems fuel false r
        return (.map (standardTag "map") [(key, value)] :: items, r)
      | .flowSequenceEnd :: _ => return ([], r.drop)
      | _ =>
        let (item, r) ← parse fuel false false r
        let (items, r) ← flowItems fuel false r
        return (item :: items, r)

/-- The entries of a mapping in braces, behind a comma unless they are the first. A node that is no
key has no value. -/
def flowPairs (fuel : Nat) (first : Bool) (r : Rest) :
    Except Fault (List (Node × Node) × Rest) :=
  match fuel with
  | 0 => unexpected r
  | fuel + 1 =>
    match r.tokens with
    | .flowMappingEnd :: _ => .ok ([], r.drop)
    | _ => do
      let r ←
        if first then pure r
        else
          match r.tokens with
          | .flowEntry :: _ => pure r.drop
          | _ => unexpected r
      match r.tokens with
      | .key :: _ =>
        let (key, r) ← flowPart fuel r.drop
        let (value, r) ← flowValue fuel r
        let (pairs, r) ← flowPairs fuel false r
        return ((key, value) :: pairs, r)
      | .flowMappingEnd :: _ => return ([], r.drop)
      | _ =>
        let (key, r) ← parse fuel false false r
        let (pairs, r) ← flowPairs fuel false r
        return ((key, empty) :: pairs, r)

end

/-- The handles that need no directive. -/
def standardHandles : Table String String := [("!", "!"), ("!!", tagLead)]

/-- The directives at the front: at most one version, which has to be 1, and no handle twice. -/
def directives (versioned : Bool) (handles : Table String String) :
    List Token → Except Fault (Table String String × List Token)
  | .directive (.version major) :: ts =>
    if versioned || major != 1 then .error .malformed else directives true handles ts
  | .directive (.handle h lead) :: ts =>
    if handles.contains h then .error .malformed
    else directives versioned (handles.insert h lead) ts
  | .directive .other :: ts => directives versioned handles ts
  | ts => .ok (standardHandles.insertAll handles, ts)

/-- Only ends of documents and the end of the text are left. -/
def isOver (tokens : List Token) : Bool :=
  match tokens.dropWhile (· == .documentEnd) with
  | .streamEnd :: _ => true
  | _ => false

/-- The node of a document at the front, and the end of the text behind it. -/
def document (content : Step Node) (r : Rest) : Except Fault Node := do
  let (node, r) ← content r
  if isOver r.tokens then return node
  else unexpected ⟨r.tokens.dropWhile (· == .documentEnd), r.anchors, r.handles⟩

/-- **The node of the only document** of a list of tokens; `none` if there is no document. Content
without a start mark is a document too. -/
def ofTokens? (tokens : List Token) : Except Fault (Option Node) := do
  let fuel := 4 * tokens.length + 8
  let explicit := match tokens with
    | .directive _ :: _ => true
    | .documentStart :: _ => true
    | _ => false
  match tokens with
  | .streamEnd :: _ => return none
  | _ =>
    if explicit then
      let (handles, ts) ← directives false [] tokens
      match ts with
      | .documentStart :: ts =>
        let r : Rest := ⟨ts, [], handles⟩
        let content : Step Node := fun r =>
          match r.tokens with
          | .directive _ :: _ => .ok (empty, r)
          | .documentStart :: _ => .ok (empty, r)
          | .documentEnd :: _ => .ok (empty, r)
          | .streamEnd :: _ => .ok (empty, r)
          | _ => parse fuel true false r
        return some (← document content r)
      | ts => unexpected ⟨ts, [], []⟩
    else
      return some (← document (parse fuel true false) ⟨tokens, [], standardHandles⟩)

end Node

end Compliance.Yaml
