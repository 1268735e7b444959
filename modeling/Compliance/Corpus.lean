import Compliance.Merge
import Compliance.Schema.Document

/-! # Corpora

A corpus is the documents of a run by file name, in the order in which they were found. Only
documents with a mapping at the root take part in merging, and the merged view itself never does.

* `Corpus.parts`: the documents that take part, in order.
* `Corpus.merged`: all of them laid over one another; later scalars and lists win silently.
-/

namespace Compliance

/-- Documents by file name. -/
abbrev Corpus := Table String Tree

namespace Corpus

/-- The mappings of the documents that take part in merging. -/
def parts (corpus : Corpus) : List (String × Mapping) :=
  corpus.filterMap fun (file, document) =>
    if file = mergedName then none
    else
      match document with
      | .map entries => some (file, entries)
      | _ => none

/-- All documents laid over one another in order. -/
def merged (corpus : Corpus) : Mapping :=
  corpus.parts.foldl (fun m part => deepMerge .replace m part.2) []

end Corpus

end Compliance
