import Compliance.Schema.Check

/-! # Document rules

A document has a version and four optional sections. A root, a profile section, a CE section, a
checks section or an entry of the first two that is no mapping stops the rules for the document, and
so does a value that cannot be written out; the fault becomes one error behind what was found before
it.

* `profilesRule`, `ceRule`, `checksRule`: the sections.
* `documentRule`: all rules for one document, the sections in their fixed order.
* `lintDocument`: the findings about one document, where nothing else is said for a system without
  limits.
-/

namespace Compliance

/-- The name under which the merged view of all documents is linted. -/
def mergedName : String := "merged data"

namespace Schema

def version : String := "2.0.0"

def topLevelKeys : List String := ["version", "profiles", "ce", "checks", "controls"]

def profileKeys : List String := ["title", "description", "controls", "ces", "checks", "confine"]

def ceKeys : List String :=
  ["title", "description", "controls", "identifiers", "oval-ids", "confine", "imported_data",
    "notes"]

/-- The document is of the version of the schema. -/
def versionRule (file : String) (document : Mapping) : List Finding :=
  failUnless (((Tree.field? document "version").map (Tree.equals · (.str version))).getD false)
    [.fixed (file ++ ": version check failed")]

/-- Sections that the schema does not know. -/
def keysRule (file : String) (document : Mapping) : List Finding :=
  knownKeys file topLevelKeys document

def profileFieldsRule (file : String) (profile : Scalar) (entries : Mapping) : List Finding :=
  knownKeys [.fixed (file ++ " (profile '"), .plain profile, .fixed "')"] profileKeys entries ++
  ifPresent entries "title" (titleRule file) ++
  ifPresent entries "description" (descriptionRule file) ++
  ifPresent entries "controls" (controlsRule file) ++
  ifPresent entries "ces" (profileCesRule file) ++
  ifPresent entries "checks" (profileChecksRule file) ++
  ifPresent entries "confine" (confineRule file)

def ceFieldsRule (file : String) (ce : Scalar) (entries : Mapping) : List Finding :=
  knownKeys [.fixed (file ++ " (CE '"), .plain ce, .fixed "')"] ceKeys entries ++
  ifPresent entries "title" (titleRule file) ++
  ifPresent entries "description" (descriptionRule file) ++
  ifPresent entries "controls" (controlsRule file) ++
  ifPresent entries "identifiers" (identifiersRule file) ++
  ifPresent entries "oval-ids" (ovalIdsRule file) ++
  ifPresent entries "confine" (confineRule file) ++
  ifPresent entries "imported_data" (importedDataRule file)

/-- The entries of a node that has to be a mapping; `what` words its place. -/
def demand (limits : Limits) (what : Wording) (data : Tree) : Logged RuleFault Mapping :=
  (Logged.ofExcept (spell limits what)).andThen fun place =>
    Logged.ofExcept ((data.asMapping place).mapError .kind)

/-- A section of entries that are mappings; the first other entry stops the rules. -/
def sectionRule (what entryWhat : String) (fields : Scalar → Mapping → List Finding)
    (data : Tree) (limits : Limits := {}) : Logged RuleFault Unit :=
  (demand limits what data).andThen fun entries =>
    Logged.each entries fun (name, value) =>
      (demand limits [.fixed (entryWhat ++ " '"), .plain name, .fixed "'"] value).andThen
        fun inner => say limits (fields name inner)

def profilesRule (file : String) (data : Tree) (limits : Limits := {}) : Logged RuleFault Unit :=
  sectionRule "profiles" "profile" (profileFieldsRule file) data limits

def ceRule (file : String) (data : Tree) (limits : Limits := {}) : Logged RuleFault Unit :=
  sectionRule "ce" "CE" (ceFieldsRule file) data limits

/-- The checks of a document. A check that is no mapping is reported and stops nothing. -/
def checksRule (file : String) (data : Tree) (limits : Limits := {}) : Logged RuleFault Unit :=
  (demand limits "checks" data).andThen fun entries =>
    say limits (entries.flatMap fun (check, value) =>
      checkRule file (decide (file = mergedName)) check value)

/-- The rule for a section, where the section is neither null nor false. -/
def sectionIfSet (document : Mapping) (name : String) (rule : Tree → Logged RuleFault Unit) :
    Logged RuleFault Unit :=
  match Tree.field? document name with
  | none => .done ()
  | some value => if value.isSet then rule value else .done ()

/-- Every rule for one document. -/
def documentRule (file : String) (data : Tree) (limits : Limits := {}) : Logged RuleFault Unit :=
  (demand limits "document root" data).andThen fun document =>
    (say limits (versionRule file document ++ keysRule file document)).andThen fun _ =>
      (sectionIfSet document "profiles" (profilesRule file · limits)).andThen fun _ =>
        (sectionIfSet document "ce" (ceRule file · limits)).andThen fun _ =>
          (sectionIfSet document "checks" (checksRule file · limits)).andThen fun _ =>
            sectionIfSet document "controls" fun value => say limits (controlsRule file value)

end Schema

/-- **The findings about one document.** A fault that stops the rules is the last finding. -/
def lintDocument (file : String) (data : Tree) (limits : Limits := {}) : List Message :=
  let run := Schema.documentRule file data limits
  match run.outcome with
  | .ok () => run.messages
  | .error e => run.messages ++ [.error (file ++ ": " ++ e.message ++ " (not a hash?)")]

end Compliance
