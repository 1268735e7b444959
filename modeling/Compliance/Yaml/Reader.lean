import Compliance.Text.Quoted
import Compliance.Yaml.Token.Stream
import Compliance.Yaml.Value

/-! # Reading YAML

A text with one document has the value of that document; a text without one is null. What is wrong
with the form of a text is not described; what is wrong with a value is.

A value may hold itself. Its outline has an opaque object at each such place, which no text writes;
reading it ends in a fault unless a value that a document may not hold comes first.
-/

namespace Compliance.Yaml

def Fault.message : Fault → String
  | .malformed => "<yaml error>"
  | .codePoint _ => "chr() arg not in range(0x110000)"
  | .calendar e => e.message
  | .integer base text =>
    "invalid literal for int() with base " ++ toString base ++ ": " ++ Text.quoted text
  | .float text => "could not convert string to float: " ++ Text.quoted text
  | .emptyNumber => "a number without a digit"
  | .boolean text => "no truth value: " ++ Text.quoted text
  | .timestamp text => "no timestamp: " ++ Text.quoted text
  | .timestampCollection => "a timestamp has to be a scalar"
  | .overflow => "int too large to convert to float"
  | .recursive => "maximum recursion depth exceeded"

/-- The outline of the value that a text writes. -/
def outline (text : List Char) : Except Fault Tree :=
  match Node.ofTokens? (Token.stream text) with
  | .error e => .error e
  | .ok none => .ok .null
  | .ok (some node) => node.outline

/-- **The value that a text writes.** -/
def read (text : List Char) : Except Fault Tree :=
  match outline text with
  | .error e => .error e
  | .ok value =>
    match value.check with
    | .error (.unsupported (.object _)) => .error .recursive
    | _ => .ok value

end Compliance.Yaml
