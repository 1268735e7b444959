/-! # Cutting texts

* `Text.strip?`: what follows a text at the front of another.
* `Text.cut?`: what stands before and behind the first occurrence of a text in another.
-/

namespace Compliance.Text

section
variable {α : Type} [DecidableEq α]

/-- What is left of a list behind another one, if it starts with that. -/
def stripList? : List α → List α → Option (List α)
  | [], cs => some cs
  | _ :: _, [] => none
  | p :: ps, c :: cs => if p = c then stripList? ps cs else none

/-- What stands in front of the first `mark` in a list and behind it. -/
def cutList? (mark : List α) : List α → Option (List α × List α)
  | [] => if mark.isEmpty then some ([], []) else none
  | c :: cs =>
    match stripList? mark (c :: cs) with
    | some rest => some ([], rest)
    | none => (cutList? mark cs).map fun (front, rest) => (c :: front, rest)

end

/-- What is left of `s` behind `lead`, if `s` starts with it. -/
def strip? (lead s : String) : Option String :=
  (stripList? lead.toList s.toList).map String.ofList

/-- The text in front of the first `mark` in `s` and the text behind it. -/
def cut? (mark s : String) : Option (String × String) :=
  (cutList? mark.toList s.toList).map fun (front, rest) =>
    (String.ofList front, String.ofList rest)

end Compliance.Text
