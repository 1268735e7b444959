import Compliance.Yaml.Cursor

/-! # The tokens of a YAML text

Tokens are the marks and scalars of a text. Indentation is spelled out by `blockEnd`, and the
implicit keys by `key`, so that the tokens alone give the structure.
-/

namespace Compliance.Yaml

/-- What a directive says. -/
inductive Directive where
  | version (major : Nat)
  | handle (name prefix_ : String)
  | other
deriving DecidableEq, Repr

/-- How a tag is written: behind a handle, or in full. -/
structure TagText where
  handle : Option String
  suffix : String
deriving DecidableEq, Repr

/-- A mark or a scalar of a text; `broken` is where it stops being YAML. -/
inductive Token where
  | directive (d : Directive)
  | documentStart
  | documentEnd
  | streamEnd
  | blockSequenceStart
  | blockMappingStart
  | blockEnd
  | flowSequenceStart
  | flowSequenceEnd
  | flowMappingStart
  | flowMappingEnd
  | blockEntry
  | flowEntry
  | key
  | value
  | alias (name : String)
  | anchor (name : String)
  | tag (text : TagText)
  | scalar (text : String) (plain : Bool)
  | broken (fault : Fault)
deriving DecidableEq, Repr

end Compliance.Yaml
