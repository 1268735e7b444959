import Compliance.Diagnostics
import Compliance.Tree.Equality
import Compliance.Tree.Render

/-! # Confinement

Profiles, CEs and checks may carry a `confine` clause that restricts them to particular
environments. The clauses of the merged data give the contexts to compile under, and a context
decides which entries take part.

* `collectConfines`: all clauses laid over one another, later entries over earlier ones.
* `expandConfines`: as many contexts as the value counts multiply to; context `i` takes value `i`
  of every setting, counted round the list of its values.
* `Confine.excludes`: an entry is kept at the first setting that matches; a setting that the context
  does not have excludes the entry at once, even if a later one would match.
* `applyConfinement`: the entries that are kept, in order.
-/

namespace Compliance

/-- The sections whose entries may be confined. -/
def confinedSections : List String := ["profiles", "ce", "checks"]

/-- The mapping-valued confine clauses of the entries of one section. -/
def sectionConfines (merged : Mapping) (name : String) : List Mapping :=
  ((Tree.mapField? merged name).getD []).filterMap fun (_, entry) =>
    Tree.mapField? entry.entries "confine"

/-- Every confine clause of the data laid over one another; later settings win. -/
def collectConfines (merged : Tree) : Mapping :=
  (confinedSections.flatMap (sectionConfines merged.entries)).foldl Table.insertAll []

/-- The number of contexts: the product of the value counts. -/
def contextCount (confine : Mapping) : Nat :=
  (confine.map fun (_, value) => value.asList.length).foldl (· * ·) 1

/-- Context `i`: each setting with its value number `i`, counted round the list. -/
def contextAt (confine : Mapping) (i : Nat) : Mapping :=
  confine.map fun (setting, value) =>
    (setting, value.asList.getD (i % value.asList.length) .null)

/-- The contexts of a combined confine clause; none if there is no setting. -/
def expandConfines (confine : Mapping) : List Mapping :=
  if confine.isEmpty then []
  else (List.range (contextCount confine)).map (contextAt confine)

namespace Confine

/-- Some allowed value counts as the value. -/
def allows (allowed value : Tree) : Bool :=
  allowed.asList.any fun t => t.alike value

/-- Some value of the context's setting is allowed. -/
def matchesSetting (actual allowed : Tree) : Bool := actual.asList.any (allows allowed)

/-- The settings exclude their entry from a context. -/
def excludes (context : Mapping) : Mapping → Bool
  | [] => true
  | (setting, allowed) :: r =>
    match context.get? setting with
    | none => true
    | some actual => if matchesSetting actual allowed then false else excludes context r

end Confine

/-- Whether the entry is left out under the context. A context that is no mapping has no settings;
a `confine` that is no mapping is reported and leaves the entry in. -/
def shouldDelete (file : String) (key : Scalar) (specification context : Tree) :
    Bool × List Message :=
  match Tree.field? specification.entries "confine" with
  | none => (false, [])
  | some (.map confine) => (Confine.excludes context.entries confine, [])
  | some _ =>
    (false, [.warning (file ++ ": 'confine' is not a Hash in key " ++ key.text)])

/-- The section without the entries that the context leaves out, and what there is to report. A null
context leaves out nothing, and a section that is no mapping stays as it is. -/
def applyConfinement (file : String) (section_ context : Tree) : Tree × List Message :=
  match context, section_ with
  | .null, _ => (section_, [])
  | _, .map entries =>
    let judged := entries.map fun e => (e, shouldDelete file e.1 e.2 context)
    (.map ((judged.filter fun j => !j.2.1).map (·.1)), judged.flatMap (·.2.2))
  | _, _ => (section_, [])

/-- The context as it is named in messages. -/
def describeContext : Tree → String
  | .null => "(no confinement data)"
  | context => "(confined: " ++ context.render ++ ")"

end Compliance
