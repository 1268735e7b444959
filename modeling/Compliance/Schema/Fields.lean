import Compliance.Schema.Finding
import Compliance.Tree.Equality

/-! # Field rules

The rules for single fields of profiles, CEs and checks. A rule looks at the value of a field and
returns what it has found. Keys that the schema does not know are warnings, so that the schema can
grow.
-/

namespace Compliance.Schema

/-- The entries of a field that has to be a mapping, each judged by itself, or one warning that it
is none. -/
def overEntries (file what : String) (data : Tree) (judge : Scalar → Tree → List Finding) :
    List Finding :=
  match data with
  | .map entries => entries.flatMap fun (key, value) => judge key value
  | data => [⟨.warning, [.fixed (file ++ ": bad " ++ what ++ " '"), .tree data, .fixed "'"]⟩]

/-- The items of a field that has to be a sequence, each judged by itself, or one warning that it is
none. -/
def overItems (file what : String) (data : Tree) (judge : Tree → List Finding) : List Finding :=
  match data with
  | .seq items => items.flatMap judge
  | data => [⟨.warning, [.fixed (file ++ ": bad " ++ what ++ " '"), .tree data, .fixed "'"]⟩]

def warnUnless (test : Bool) (wording : Wording) : List Finding :=
  if test then [] else [⟨.warning, wording⟩]

/-- The keys of a mapping are all known; `place` names the mapping. -/
def knownKeys (place : Wording) (known : List String) (entries : Mapping) : List Finding :=
  entries.flatMap fun (key, _) =>
    warnUnless (key.isOneOf known) (place ++ [.fixed ": unexpected key '", .plain key, .fixed "'"])

def textField (what file : String) (data : Tree) : List Finding :=
  warnUnless data.asText?.isSome
    [.fixed (file ++ ": bad " ++ what ++ " '"), .tree data, .fixed "'"]

def titleRule : String → Tree → List Finding := textField "title"

def descriptionRule : String → Tree → List Finding := textField "description"

/-- The field switches what it names on: its keys are texts, and its values pass the test. -/
def switchesRule (what item : String) (on : Tree → Bool) (file : String) (data : Tree) :
    List Finding :=
  overEntries file what data fun key value =>
    warnUnless (key.isText && on value)
      [.fixed (file ++ ": bad " ++ item ++ " '"), .plain key, .fixed "'"]

/-- Anything but null and false switches a control on. -/
def controlsRule : String → Tree → List Finding := switchesRule "controls" "control" Tree.isSet

def isTrue : Tree → Bool
  | .bool true => true
  | _ => false

/-- Only true switches on the CEs and the checks of a profile. -/
def profileCesRule : String → Tree → List Finding := switchesRule "ces" "ce" isTrue

def profileChecksRule : String → Tree → List Finding := switchesRule "checks" "check" isTrue

/-- A confine clause is a mapping, whatever its settings. -/
def confineRule (file : String) (data : Tree) : List Finding :=
  overEntries file "confine" data fun _ _ => []

/-- Identifiers are sequences of texts under text keys. -/
def identifiersRule (file : String) (data : Tree) : List Finding :=
  overEntries file "identifiers" data fun key value =>
    match key, value with
    | .str _, .seq items =>
      items.flatMap fun t =>
        warnUnless t.asText?.isSome [.fixed (file ++ ": bad identifier '"), .tree t, .fixed "'"]
    | key, _ => [⟨.warning, [.fixed (file ++ ": bad identifier '"), .plain key, .fixed "'"]⟩]

/-- The field is a sequence of texts. -/
def textItemsRule (what item file : String) (data : Tree) : List Finding :=
  overItems file what data fun t =>
    warnUnless t.asText?.isSome [.fixed (file ++ ": bad " ++ item ++ " '"), .tree t, .fixed "'"]

def ovalIdsRule : String → Tree → List Finding := textItemsRule "oval-ids" "oval-id"

def checkCesRule : String → Tree → List Finding := textItemsRule "ces" "ce"

def importedDataKeys : List String := ["checktext", "fixtext"]

/-- Imported data are texts under known keys. -/
def importedDataRule (file : String) (data : Tree) : List Finding :=
  overEntries file "imported_data" data fun key value =>
    warnUnless (key.isOneOf importedDataKeys)
      [.fixed (file ++ ": unexpected key '"), .plain key, .fixed "'"] ++
    warnUnless value.asText?.isSome
      [.fixed (file ++ " (key '"), .plain key, .fixed "'): bad data '", .tree value, .fixed "'"]

/-- The rule for a field, where the field is there and not null. -/
def ifPresent (entries : Mapping) (name : String) (rule : Tree → List Finding) : List Finding :=
  match Tree.field? entries name with
  | none => []
  | some .null => []
  | some value => rule value

/-- The rule for a field, where the field is there and neither null nor false. -/
def ifSet (entries : Mapping) (name : String) (rule : Tree → List Finding) : List Finding :=
  match Tree.field? entries name with
  | none => []
  | some value => if value.isSet then rule value else []

end Compliance.Schema
