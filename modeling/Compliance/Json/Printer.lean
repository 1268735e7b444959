import Compliance.Text.Quoted

/-! # Writing JSON

Texts in double quotes, and objects of texts and lists of texts laid out with two blanks per level.
Only quotes, backslashes and control characters are escaped.
-/

namespace Compliance.Json

/-- A character inside quotes. -/
def escapeChar (c : Char) : List Char :=
  if c = '"' then ['\\', '"']
  else if c = '\\' then ['\\', '\\']
  else if c = '\n' then ['\\', 'n']
  else if c = '\r' then ['\\', 'r']
  else if c = '\t' then ['\\', 't']
  else if c = '\x08' then ['\\', 'b']
  else if c = '\x0c' then ['\\', 'f']
  else if c.toNat < 0x20 then '\\' :: 'u' :: Text.hexDigits 4 c.toNat
  else [c]

/-- A text in quotes. -/
def quoted (s : String) : String := "\"" ++ String.ofList (s.toList.flatMap escapeChar) ++ "\""

/-- A member of a printed object. -/
inductive Member where
  | text (s : String)
  | texts (ss : List String)

/-- A member at one level of indentation. -/
def Member.layout : Member → String
  | .text s => quoted s
  | .texts [] => "[]"
  | .texts ss => "[\n" ++ ",\n".intercalate (ss.map fun s => "    " ++ quoted s) ++ "\n  ]"

/-- An object with its members in order, one line or block each. -/
def layout (members : List (String × Member)) : String :=
  let lines := members.map fun (name, m) => "  " ++ quoted name ++ ": " ++ m.layout
  "\x7b\n" ++ ",\n".intercalate lines ++ "\n\x7d"

end Compliance.Json
