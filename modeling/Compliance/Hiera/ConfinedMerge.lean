import Compliance.Confine
import Compliance.Corpus

/-! # The merged data of a context

The documents are merged once more for each context, without the entries that the context leaves
out. Sections that are mappings merge by list union with knockout; any other top-level value
replaces what is there, and is reported when its key was there before.

* `mergeSection`: what one section of one document does to the merged data.
* `redefinition`: the report about a replaced value, `version` excepted: a note for an equal value,
  a warning that names both for another.
* `mergeConfined`: all sections of all documents in order.
-/

namespace Compliance

/-- What ends a compilation. -/
inductive CompileFault where
  | kind (fault : KindFault)
  | marker (fault : MarkerFault)
deriving DecidableEq, Repr

def CompileFault.message : CompileFault → String
  | .kind fault => fault.message
  | .marker fault => fault.message

/-- The merge of the sections: list union with knockout. -/
def sectionMode (knockout : Knockout) : Merge.Mode := ⟨true, knockout⟩

/-- The merged data with one confined section of a document laid over it. -/
def mergeSection (knockout : Knockout) (merged : Mapping) (key : Scalar) (confined : Tree) :
    Mapping :=
  match confined with
  | .map entries =>
    merged.insert key
      (.map (deepMerge (sectionMode knockout) (Merge.existingEntries (merged.get? key)) entries))
  | value => merged.insert key value

/-- The report about a value that is no mapping and comes under a key that is there already. -/
def redefinition (file label : String) (merged : Mapping) (key : Scalar) (value : Tree) :
    List Message :=
  if value.isMap || key.isOneOf ["version"] then []
  else
    match merged.get? key with
    | none => []
    | some previous =>
      let text := file ++ " " ++ label ++ ": key " ++ key.text ++ " redefined"
      if previous.equals value then [.note text]
      else
        [.warning (text ++ " (previous value: " ++ previous.render ++ ", new value: "
          ++ value.render ++ ")")]

/-- The fault of merging a confined section. -/
def sectionFault? (knockout : Knockout) (confined : Tree) : Option MarkerFault :=
  match confined with
  | .map entries => Merge.fault? (sectionMode knockout) entries
  | _ => none

/-- Lays one section of a document over the merged data and reports about it. -/
def mergeSectionLogged (knockout : Knockout) (context : Tree) (file : String) (merged : Mapping)
    (key : Scalar) (value : Tree) : Logged CompileFault Mapping :=
  let (confined, warnings) := applyConfinement file value context
  let messages := warnings ++ redefinition file (describeContext context) merged key confined
  match sectionFault? knockout confined with
  | some fault => ⟨messages, .error (.marker fault)⟩
  | none => ⟨messages, .ok (mergeSection knockout merged key confined)⟩

/-- The sections of the documents of a corpus, each with its file, in order. -/
def Corpus.sections (corpus : Corpus) : List (String × Scalar × Tree) :=
  corpus.parts.flatMap fun (file, entries) => entries.map fun e => (file, e)

/-- **The merged data of a context.** -/
def mergeConfined (corpus : Corpus) (knockout : Knockout) (context : Tree) :
    Logged CompileFault Mapping :=
  Logged.fold corpus.sections [] fun merged (file, key, value) =>
    mergeSectionLogged knockout context file merged key value

end Compliance
