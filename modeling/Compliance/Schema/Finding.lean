import Compliance.Diagnostics
import Compliance.Tree.Render

/-! # Findings

A rule words what it finds in pieces: fixed text, and values of the document that it names. The
message is the text of all pieces, unless one of them cannot be written out; that stops the rules.

* `Wording.text`, `Wording.fault?`: what a wording says, or why it cannot be said.
* `say`: records findings up to the first that cannot be said.
-/

namespace Compliance

/-- A piece of a wording: fixed text, a scalar by its plain text, or a tree as it is rendered. -/
inductive Piece where
  | fixed (s : String)
  | plain (s : Scalar)
  | tree (t : Tree)

namespace Piece

def text : Piece → String
  | .fixed s => s
  | .plain s => s.text
  | .tree t => t.render

/-- What keeps a piece from being written out. -/
def fault? (limits : Limits) : Piece → Option TextFault
  | .fixed _ => none
  | .plain s => s.fault? limits
  | .tree t => t.fault? limits 0

end Piece

/-- How a message is worded. -/
abbrev Wording := List Piece

namespace Wording

instance : Coe String Wording := ⟨fun s => [.fixed s]⟩

def text : Wording → String
  | [] => ""
  | p :: r => p.text ++ text r

@[simp] theorem text_singleton (p : Piece) : text [p] = p.text := String.append_empty

@[simp] theorem text_append (w v : Wording) : text (w ++ v) = text w ++ text v := by
  induction w with
  | nil => exact (String.empty_append).symm
  | cons p w ih => rw [List.cons_append, text, ih, text, String.append_assoc]

/-- The first fault of its pieces. -/
def fault? (limits : Limits) (wording : Wording) : Option TextFault :=
  wording.findSome? (Piece.fault? limits)

end Wording

/-- Something that a rule has found. -/
structure Finding where
  level : Level
  wording : Wording

namespace Finding

def text (f : Finding) : String := f.wording.text

def message (f : Finding) : Message := ⟨f.level, f.text⟩

end Finding

/-- Findings as messages. -/
def messages (findings : List Finding) : List Message := findings.map Finding.message

@[simp] theorem messages_append (fs gs : List Finding) :
    messages (fs ++ gs) = messages fs ++ messages gs := List.map_append

@[simp] theorem messages_flatMap {α : Type} (items : List α) (rule : α → List Finding) :
    messages (items.flatMap rule) = items.flatMap fun x => messages (rule x) :=
  List.map_flatMap

/-- What stops the rules for a document. -/
inductive RuleFault where
  | kind (fault : KindFault)
  | text (fault : TextFault)

def RuleFault.message : RuleFault → String
  | .kind fault => fault.message
  | .text fault => fault.message

/-- The text of a wording. -/
def spell (limits : Limits) (wording : Wording) : Except RuleFault String :=
  match wording.fault? limits with
  | some e => .error (.text e)
  | none => .ok wording.text

/-- Records findings; the first one that cannot be said stops the rules. -/
def say (limits : Limits) (findings : List Finding) : Logged RuleFault Unit :=
  Logged.each findings fun f =>
    (Logged.ofExcept (spell limits f.wording)).andThen fun text => Logged.log [⟨f.level, text⟩]

end Compliance
