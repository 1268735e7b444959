import Compliance.Text.Utf8

/-! # XML documents

Elements hold either a text or further elements. A document is laid out with one element on a line,
two blanks deeper inside each other; an element that holds a text stays on its line, and one that
holds nothing is a single tag.

* `Xml.isAllowed`: the characters that XML 1.0 admits.
* `Element.isWellFormed`: no other character stands in an attribute or a text.
* `Element.layout`, `Xml.document`: the written form. The line ends of a text are line feeds; those
  in attributes stay as they are.
-/

namespace Compliance.Xml

/-- An element with its attributes in order. -/
inductive Element where
  | leaf (name : String) (attributes : List (String × String)) (text : String)
  | node (name : String) (attributes : List (String × String)) (children : List Element)

/-- A character of XML 1.0. -/
def isAllowed (c : Char) : Bool :=
  let n := c.toNat
  n == 0x9 || n == 0xA || n == 0xD || (0x20 ≤ n && n ≤ 0xD7FF) || (0xE000 ≤ n && n ≤ 0xFFFD) ||
    0x10000 ≤ n

/-- All characters of the text are characters of XML. -/
def isClean (s : String) : Bool := s.toList.all isAllowed

/-- A character as it is written in attributes and texts. -/
def escapeChar (c : Char) : List Char :=
  if c = '&' then "&amp;".toList
  else if c = '<' then "&lt;".toList
  else if c = '>' then "&gt;".toList
  else if c = '"' then "&quot;".toList
  else [c]

/-- A text as it is written in attributes and elements. -/
def escape (s : String) : String := String.ofList (s.toList.flatMap escapeChar)

/-- The attributes in a start tag. -/
def attributesText (attributes : List (String × String)) : String :=
  String.join (attributes.map fun (name, value) => " " ++ name ++ "=\"" ++ escape value ++ "\"")

namespace Element

mutual

/-- No forbidden character stands in an attribute or a text. -/
def isWellFormed : Element → Bool
  | .leaf _ attributes text => attributes.all (fun a => isClean a.2) && isClean text
  | .node _ attributes children => attributes.all (fun a => isClean a.2) && areWellFormed children

/-- Every character of the elements is admitted. -/
def areWellFormed : List Element → Bool
  | [] => true
  | e :: r => isWellFormed e && areWellFormed r

end

mutual

/-- The lines of an element behind an indentation. -/
def layout (indent : String) : Element → String
  | .leaf name attributes text =>
    let tag := indent ++ "<" ++ name ++ attributesText attributes
    let body := escape (String.ofList (Text.unifyLines text.toList))
    if text.isEmpty then tag ++ "/>\n" else tag ++ ">" ++ body ++ "</" ++ name ++ ">\n"
  | .node name attributes children =>
    let tag := indent ++ "<" ++ name ++ attributesText attributes
    match children with
    | [] => tag ++ "/>\n"
    | children =>
      tag ++ ">\n" ++ layouts (indent ++ "  ") children ++ indent ++ "</" ++ name ++ ">\n"

/-- The lines of elements one below the other. -/
def layouts (indent : String) : List Element → String
  | [] => ""
  | e :: r => layout indent e ++ layouts indent r

end

end Element

/-- The document with an element at its root. -/
def document (root : Element) : String :=
  "<?xml version=\"1.0\" encoding=\"UTF-8\"?>\n" ++ root.layout ""

end Compliance.Xml
