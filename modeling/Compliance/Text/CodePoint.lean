/-! # Texts of code points

A text of the data may hold what no `Char` is: half of a surrogate pair that stands alone.

* `CodeText.ofString`: a text without halves.
* `CodeText.readable`: the text with a replacement character for each half.
-/

namespace Compliance

/-- A character, or a half of a surrogate pair, counted from the first. -/
inductive CodePoint where
  | char (c : Char)
  | half (n : Fin 2048)
deriving DecidableEq, Repr

namespace CodePoint

def isHalf : CodePoint → Bool
  | .char _ => false
  | .half _ => true

/-- The character that is shown for a code point. -/
def shown : CodePoint → Char
  | .char c => c
  | .half _ => '\ufffd'

end CodePoint

/-- A text that may hold halves. -/
abbrev CodeText := List CodePoint

namespace CodeText

def ofString (s : String) : CodeText := s.toList.map .char

def readable (t : CodeText) : String := String.ofList (t.map CodePoint.shown)

def hasHalf (t : CodeText) : Bool := t.any CodePoint.isHalf

end CodeText

end Compliance
