import Compliance.Schema.Document

/-! # The schema as a grammar

What a document has to look like, said by shapes and without a word about findings. A shape is a
property of nodes; a record lists the shapes of the fields of a mapping.

* `MappingIn`, `TextKeyed`, `ListOf`, `IsText`: shapes of nodes.
* `Optional`, `Settable`, `Required`: how much of a field has to be there. They differ in what
  counts as absent: a null may always stand for nothing, a false only in places that switch
  something on.
* `Profile`, `Ce`, `Check`, `Document`: the fields of each kind of mapping.
* `Conforms`: a document conforms to the schema.
-/

namespace Compliance.Schema

/-! ## Shapes -/

def MappingIn (P : Mapping → Prop) : Tree → Prop
  | .map entries => P entries
  | _ => False

/-- A mapping of text keys to values in `P`. -/
def TextKeyed (P : Tree → Prop) : Tree → Prop :=
  MappingIn fun m => ∀ e ∈ m, (∃ name, e.1 = .str name) ∧ P e.2

def ListOf (P : Tree → Prop) : Tree → Prop
  | .seq items => ∀ t ∈ items, P t
  | _ => False

def IsText (t : Tree) : Prop := ∃ s, t = .str s

/-- A mapping that switches controls on: anything but null and false does. -/
def Controls : Tree → Prop := TextKeyed fun t => t ≠ .null ∧ t ≠ .bool false

/-- A mapping that refers to something by names, each with the value true. -/
def References : Tree → Prop := TextKeyed (· = .bool true)

def AnyMapping : Tree → Prop := MappingIn fun _ => True

/-- A mapping of names to lists of texts. -/
def Identifiers : Tree → Prop := TextKeyed (ListOf IsText)

/-- A mapping with the texts of a check and of its remedy. -/
def ImportedData : Tree → Prop :=
  MappingIn fun m => ∀ e ∈ m, (∃ name ∈ ["checktext", "fixtext"], e.1 = .str name) ∧ IsText e.2

/-! ## Fields -/

/-- All keys are among the given texts. -/
def OnlyKeys (names : List String) (m : Mapping) : Prop := ∀ e ∈ m, ∃ name ∈ names, e.1 = .str name

/-- The field is absent, null, or in `P`. -/
def Optional (m : Mapping) (name : String) (P : Tree → Prop) : Prop :=
  ∀ t, Tree.field? m name = some t → t = .null ∨ P t

/-- The field is absent, null, false, or in `P`. -/
def Settable (m : Mapping) (name : String) (P : Tree → Prop) : Prop :=
  ∀ t, Tree.field? m name = some t → (t = .null ∨ t = .bool false) ∨ P t

/-- The field is there and in `P`. -/
def Required (m : Mapping) (name : String) (P : Tree → Prop) : Prop :=
  ∃ t, Tree.field? m name = some t ∧ P t

/-- The field may be left to another part of the data, unless the data are complete. -/
def Owed (complete : Prop) (m : Mapping) (name : String) (P : Tree → Prop) : Prop :=
  (complete → Required m name P) ∧ Settable m name P

/-! ## Records -/

structure Profile (m : Mapping) : Prop where
  keys : OnlyKeys profileKeys m
  title : Optional m "title" IsText
  description : Optional m "description" IsText
  controls : Optional m "controls" Controls
  ces : Optional m "ces" References
  checks : Optional m "checks" References
  confine : Optional m "confine" AnyMapping

/-- A CE. Its notes are free. -/
structure Ce (m : Mapping) : Prop where
  keys : OnlyKeys ceKeys m
  title : Optional m "title" IsText
  description : Optional m "description" IsText
  controls : Optional m "controls" Controls
  identifiers : Optional m "identifiers" Identifiers
  ovalIds : Optional m "oval-ids" (ListOf IsText)
  confine : Optional m "confine" AnyMapping
  importedData : Optional m "imported_data" ImportedData

/-- The settings of a check; the value may be anything that is there. -/
structure Settings (m : Mapping) : Prop where
  parameter : Required m "parameter" fun t => ∃ s, t = .str s ∧ s ≠ ""
  value : Required m "value" fun _ => True
  keys : OnlyKeys ["parameter", "value"] m

/-- A list of entries that give a reason. -/
def Reasons : Tree → Prop :=
  ListOf <| MappingIn fun m => OnlyKeys ["reason"] m ∧ Required m "reason" IsText

/-- A list of entries that give a level of risk, a whole number, and may give a reason. -/
def Risks : Tree → Prop :=
  ListOf <| MappingIn fun m =>
    OnlyKeys ["level", "reason"] m ∧ Required m "level" fun t => ∃ n, t = .int n

/-- A remediation: a mapping of three sections, each of which may be missing. -/
def Remediation : Tree → Prop :=
  MappingIn fun m => ∀ e ∈ m,
    (e.1 = .str "scan-false-positive" ∨ e.1 = .str "disabled") ∧ Reasons e.2 ∨
      e.1 = .str "risk" ∧ Risks e.2

structure Check (complete : Prop) (m : Mapping) : Prop where
  keys : OnlyKeys checkKeys m
  type : Owed complete m "type" (· = .str "puppet-class-parameter")
  settings : Owed complete m "settings" (MappingIn Settings)
  remediation : Settable m "remediation" Remediation
  controls : Optional m "controls" Controls
  identifiers : Optional m "identifiers" Identifiers
  ovalIds : Optional m "oval-ids" (ListOf IsText)
  ces : Optional m "ces" (ListOf IsText)
  confine : Optional m "confine" AnyMapping

/-- A section: a mapping of bodies, each of which is a mapping in `P`. -/
def SectionOf (P : Mapping → Prop) : Tree → Prop :=
  MappingIn fun m => ∀ e ∈ m, MappingIn P e.2

/-- The sections of a document. -/
structure Document (complete : Prop) (m : Mapping) : Prop where
  version : Required m "version" (· = .str "2.0.0")
  keys : OnlyKeys ["version", "profiles", "ce", "checks", "controls"] m
  profiles : Settable m "profiles" (SectionOf Profile)
  ce : Settable m "ce" (SectionOf Ce)
  checks : Settable m "checks" (SectionOf (Check complete))
  controls : Settable m "controls" Controls

/-- **The document conforms to the schema.** Complete data, such as the merged view, may leave
nothing to another part. -/
def Conforms (complete : Prop) : Tree → Prop := MappingIn (Document complete)

end Compliance.Schema
