import Compliance.Schema.Fields

/-! # Check rules

A check says which class parameter it sets to which value, and how a failed check may be remedied.
Findings about the type, the settings and the remediation are errors; `subject` words the file and
the check that they are about.
-/

namespace Compliance.Schema

/-- The type of check that sets a class parameter. -/
def parameterCheckType : String := "puppet-class-parameter"

def settingsKeys : List String := ["parameter", "value"]

def checkKeys : List String :=
  ["type", "settings", "controls", "identifiers", "oval-ids", "ces", "confine", "remediation"]

/-- A check as it is named in findings. -/
def checkSubject (file : String) (check : Scalar) : Wording :=
  [.fixed (file ++ " (check '"), .plain check, .fixed "')"]

def failUnless (test : Bool) (wording : Wording) : List Finding :=
  if test then [] else [⟨.error, wording⟩]

/-- A check is of the type that sets a class parameter. -/
def typeRule (subject : Wording) (data : Tree) : List Finding :=
  failUnless (data.equals (.str parameterCheckType))
    (subject ++ [.fixed ": unknown type '", .tree data, .fixed "'"])

/-- A parameter is a text that is not empty. -/
def parameterRule (subject : Wording) (data : Tree) : List Finding :=
  failUnless (match data with | .str s => !s.isEmpty | _ => false)
    (subject ++ [.fixed ": invalid parameter '", .tree data, .fixed "'"])

/-- The settings name a parameter and hold some value, and nothing else. -/
def settingsRule (subject : Wording) (data : Tree) : List Finding :=
  match data with
  | .null => [⟨.error, subject ++ [.fixed ": missing settings"]⟩]
  | .map entries =>
    (match Tree.field? entries "parameter" with
      | some parameter => parameterRule subject parameter
      | none => [⟨.error, subject ++ [.fixed ": missing key 'parameter'"]⟩]) ++
    failUnless (Tree.field? entries "value").isSome
      (subject ++ [.fixed ": missing key 'value'"]) ++
    knownKeys subject settingsKeys entries
  | data =>
    [⟨.error, subject ++
      [.fixed ": malformed settings '", .tree data, .fixed "', expecting a hash"]⟩]

/-- What the entries of a remediation section look like. -/
structure RemediationShape where
  known : List String
  required : String
  accepts : Tree → Bool
  expected : String

/-- The entries of the sections that give a reason. -/
def reasonShape : RemediationShape :=
  { known := ["reason"]
    required := "reason"
    accepts := fun t => t.asText?.isSome
    expected := "must be an array of reason hashes." }

/-- The entries of the risk section: a level, and a reason if there is one. -/
def riskShape : RemediationShape :=
  { known := ["level", "reason"]
    required := "level"
    accepts := fun t => decide (t.dataType = .integer)
    expected := "must be an array of hashes containing levels and reasons." }

/-- The shape of a remediation section, if the section is known. -/
def remediationShape? (section_ : Scalar) : Option RemediationShape :=
  if section_.isOneOf ["scan-false-positive", "disabled"] then some reasonShape
  else if section_.isOneOf ["risk"] then some riskShape
  else none

/-- One entry of a remediation section of the given shape. -/
def remediationEntryRule (subject : Wording) (section_ : Scalar) (shape : RemediationShape)
    (entry : Tree) : List Finding :=
  let malformed := subject ++
    [.fixed ": malformed remediation section ", .plain section_, .fixed (", " ++ shape.expected)]
  match entry with
  | .map fields =>
    (fields.flatMap fun (key, _) =>
      warnUnless (key.isOneOf shape.known)
        (subject ++ [.fixed ": Unknown element ", .plain key, .fixed " in remediation section ",
          .plain section_])) ++
    failUnless (((Tree.field? fields shape.required).map shape.accepts).getD false) malformed
  | _ => [⟨.error, malformed⟩]

/-- One section of the remediation. -/
def remediationSectionRule (subject : Wording) (section_ : Scalar) (data : Tree) : List Finding :=
  match remediationShape? section_ with
  | none =>
    [⟨.warning, subject ++ [.fixed ": ", .plain section_,
      .fixed " is not a recognized section within the remediation section"]⟩]
  | some shape =>
    match data with
    | .seq items => items.flatMap (remediationEntryRule subject section_ shape)
    | _ =>
      [⟨.error, subject ++ [.fixed ": malformed remediation section ", .plain section_,
        .fixed (", " ++ shape.expected)]⟩]

/-- The sections of a remediation, each judged by itself. -/
def remediationRule (subject : Wording) (data : Tree) : List Finding :=
  match data with
  | .map sections => sections.flatMap fun (name, value) => remediationSectionRule subject name value
  | _ => [⟨.error, subject ++ [.fixed ": malformed remediation section, expecting a hash."]⟩]

/-- One check. A part of the data may leave the type and the settings of a check to another part;
the merged view, where `complete` holds, may not. -/
def checkRule (file : String) (complete : Bool) (check : Scalar) (data : Tree) : List Finding :=
  let subject := checkSubject file check
  match data with
  | .null => [⟨.warning, subject ++ [.fixed ": empty value"]⟩]
  | .map entries =>
    let demanded := fun name (rule : Tree → List Finding) =>
      if complete then rule ((Tree.field? entries name).getD .null) else ifSet entries name rule
    knownKeys subject checkKeys entries ++
    demanded "type" (typeRule subject) ++
    demanded "settings" (settingsRule subject) ++
    ifSet entries "remediation" (remediationRule subject) ++
    ifPresent entries "controls" (controlsRule file) ++
    ifPresent entries "identifiers" (identifiersRule file) ++
    ifPresent entries "oval-ids" (ovalIdsRule file) ++
    ifPresent entries "ces" (checkCesRule file) ++
    ifPresent entries "confine" (confineRule file)
  | _ =>
    [⟨.error, subject ++ [.fixed (": contains something other than a hash, " ++
      "this is most likely caused by a missing note or ce element under the check")]⟩]

end Compliance.Schema
