import Compliance.Proofs.ConfinedEntries

/-! # Reports about redefined values

The merge of a context reports about a value that is no mapping and comes under a key that an
earlier document has set. What it compares the value with is what the earlier documents leave there.

* `Placed`, `Corpus.placed`: the sections of the documents, each with the documents in front of it.
* `clauseWarnings`: the reports about confine clauses that are no mappings.
* `Placed.Redefines`, `Placed.reports`: the sections that are reported, and how.
* `messages_document`, `messages_from`: the messages of one document and, by induction, of all.
* `isSome_get?_confinedView`: a key is there exactly if a document has set it.
* `kind?_of_equals`: equal values are of one kind, or count as one number.
* `mergeConfined_reports`: all messages of the merge of a context.
-/

namespace Compliance

/-- A section of a document, with the documents in front of it. -/
structure Placed where
  before : Corpus
  file : String
  key : Scalar
  value : Tree

namespace Corpus

/-- The sections of a document behind others. -/
def placedIn (before : Corpus) (document : String × Tree) : List Placed :=
  (sections [document]).map fun (file, key, value) => ⟨before, file, key, value⟩

/-- The sections of documents behind others, in order. -/
def placedFrom (before : Corpus) : Corpus → List Placed
  | [] => []
  | document :: rest => placedIn before document ++ placedFrom (before ++ [document]) rest

/-- **The sections of the documents**, each with the documents in front of its own. -/
def placed (corpus : Corpus) : List Placed := placedFrom [] corpus

end Corpus

/-- The report about a confine clause of an entry that is no mapping. -/
def clauseWarning? (file : String) (e : Scalar × Tree) : Option Message :=
  match Tree.field? e.2.entries "confine" with
  | some clause =>
    if clause.isMap then none
    else some (.warning (file ++ ": 'confine' is not a Hash in key " ++ e.1.text))
  | none => none

/-- The reports about the confine clauses of a section. Without a context none is looked at. -/
def clauseWarnings (file : String) (context value : Tree) : List Message :=
  match context with
  | .null => []
  | _ => value.entries.filterMap (clauseWarning? file)

namespace Placed

/-- The section gives a value that is no mapping to a key that an earlier document has set. -/
def Redefines (p : Placed) : Prop :=
  p.value.isMap = false ∧ p.key ≠ .str "version" ∧
    ∃ part ∈ p.before.parts, Table.contains part.2 p.key = true

/-- The reports about the section after the documents in front of it. -/
def reports (lead : Option String) (context : Tree) (p : Placed) : List Message :=
  redefinition p.file (describeContext context)
    (confinedView p.before (.ofPrefix lead) context) p.key p.value

def label (context : Tree) (p : Placed) : String :=
  p.file ++ " " ++ describeContext context ++ ": key " ++ p.key.text ++ " redefined"

end Placed

/-! ## One section -/

theorem shouldDelete_messages (file : String) (e : Scalar × Tree) (context : Tree) :
    (shouldDelete file e.1 e.2 context).2 = (clauseWarning? file e).toList := by
  unfold shouldDelete clauseWarning?
  split <;> simp_all [Tree.isMap]

theorem messages_of_not_isMap {value : Tree} (h : value.isMap = false) {file : String}
    {context : Tree} : (applyConfinement file value context).2 = [] := by
  unfold applyConfinement
  split
  · rfl
  · cases h
  · rfl

theorem clauseWarnings_of_not_isMap {value : Tree} (h : value.isMap = false) {file : String}
    {context : Tree} : clauseWarnings file context value = [] := by
  have hnone : value.entries = [] := by
    cases value with
    | map entries => cases h
    | scalar s => rfl
    | seq items => rfl
  unfold clauseWarnings
  split
  · rfl
  · rw [hnone]
    rfl

theorem applyConfinement_messages (file : String) (value context : Tree) :
    (applyConfinement file value context).2 = clauseWarnings file context value := by
  cases value with
  | map entries =>
    unfold applyConfinement clauseWarnings
    split
    · rfl
    · rename_i context _ _ es hnull heq
      obtain rfl := Tree.map.inj heq
      dsimp only
      split
      · exact absurd rfl hnull
      · rw [List.flatMap_map, List.filterMap_eq_flatMap_toList]
        exact List.flatMap_congr fun e _ => shouldDelete_messages file e context
    · rename_i h
      exact absurd rfl (h entries)
  | scalar s => rw [messages_of_not_isMap rfl, clauseWarnings_of_not_isMap rfl]
  | seq items => rw [messages_of_not_isMap rfl, clauseWarnings_of_not_isMap rfl]

/-- What a context leaves out of a section does not matter for the report about its key. -/
theorem redefinition_confined (file label : String) (merged : Mapping) (key : Scalar)
    (value context : Tree) :
    redefinition file label merged key (applyConfinement file value context).1 =
      redefinition file label merged key value := by
  cases value with
  | map entries => rw [applyConfinement_map]; rfl
  | scalar s => rw [applyConfinement_of_isMap file rfl]
  | seq items => rw [applyConfinement_of_isMap file rfl]

theorem redefinition_congr {merged other : Mapping} {key : Scalar}
    (h : merged.get? key = other.get? key) (file label : String) (value : Tree) :
    redefinition file label merged key value = redefinition file label other key value := by
  unfold redefinition
  rw [h]

theorem messages_section (lead : Option String) (context : Tree) (file : String) (merged : Mapping)
    (key : Scalar) (value : Tree) :
    (mergeSectionLogged (.ofPrefix lead) context file merged key value).messages =
      clauseWarnings file context value ++
        redefinition file (describeContext context) merged key value := by
  rw [← applyConfinement_messages, ← redefinition_confined _ _ _ _ value context]
  unfold mergeSectionLogged
  dsimp only
  split <;> rfl

/-! ## All sections -/

/-- The messages of a merge that goes on from the merged data of earlier documents. -/
def messagesOn (lead : Option String) (context : Tree) (merged : Mapping)
    (sections : List (String × Scalar × Tree)) : List Message :=
  (Logged.fold sections merged fun merged (file, key, value) =>
    mergeSectionLogged (.ofPrefix lead) context file merged key value).messages

theorem messagesOn_cons (lead : Option String) (context : Tree) (merged : Mapping)
    (part : String × Scalar × Tree) (sections : List (String × Scalar × Tree)) :
    messagesOn lead context merged (part :: sections) =
      clauseWarnings part.1 context part.2.2 ++
        redefinition part.1 (describeContext context) merged part.2.1 part.2.2 ++
        messagesOn lead context (viewStep (.ofPrefix lead) context merged part) sections := by
  unfold messagesOn
  rw [Logged.fold, Logged.messages_andThen (mergeSectionLogged_ofPrefix lead context part.1 merged
    part.2.1 part.2.2), messages_section]

theorem messagesOn_append (lead : Option String) (context : Tree) (merged : Mapping)
    (xs ys : List (String × Scalar × Tree)) :
    messagesOn lead context merged (xs ++ ys) = messagesOn lead context merged xs ++
      messagesOn lead context (xs.foldl (viewStep (.ofPrefix lead) context) merged) ys := by
  induction xs generalizing merged with
  | nil => rfl
  | cons x xs ih =>
    rw [List.cons_append, messagesOn_cons, messagesOn_cons, ih, List.foldl_cons]
    simp only [List.append_assoc]

/-- **The messages of one document.** Its keys are distinct, so none of its sections changes what is
there under the key of a later one. -/
theorem messages_document (lead : Option String) (context : Tree) (file : String)
    {entries : Mapping} (hd : entries.Distinct) {merged before : Mapping}
    (hsame : ∀ e ∈ entries, merged.get? e.1 = before.get? e.1) :
    messagesOn lead context merged (entries.map fun e => (file, e)) =
      entries.flatMap fun e => clauseWarnings file context e.2 ++
        redefinition file (describeContext context) before e.1 e.2 := by
  induction entries generalizing merged with
  | nil => rfl
  | cons e entries ih =>
    obtain ⟨hnew, hd⟩ := List.pairwise_cons.mp hd
    obtain ⟨hhead, hrest⟩ := List.forall_mem_cons.mp hsame
    have hnext : ∀ e' ∈ entries,
        (viewStep (.ofPrefix lead) context merged (file, e)).get? e'.1 = before.get? e'.1 := by
      intro e' he'
      rw [viewStep, mergeSection_eq, Table.get?_insert, hnew e' he']
      exact hrest e' he'
    rw [List.map_cons, messagesOn_cons, ih hd hnext, redefinition_congr hhead, List.flatMap_cons]

theorem parts_singleton (document : String × Tree) :
    Corpus.parts [document] = [] ∨
      ∃ entries, Corpus.parts [document] = [(document.1, entries)] := by
  obtain ⟨file, value⟩ := document
  by_cases hname : file = mergedName
  · exact .inl (by simp [Corpus.parts, hname])
  · cases value with
    | map entries => exact .inr ⟨entries, by simp [Corpus.parts, hname]⟩
    | scalar s => exact .inl (by simp [Corpus.parts])
    | seq items => exact .inl (by simp [Corpus.parts])

theorem parts_append (xs ys : Corpus) :
    Corpus.parts (xs ++ ys) = Corpus.parts xs ++ Corpus.parts ys := List.filterMap_append

theorem sections_append (xs ys : Corpus) :
    Corpus.sections (xs ++ ys) = Corpus.sections xs ++ Corpus.sections ys := by
  unfold Corpus.sections
  rw [parts_append, List.flatMap_append]

theorem messages_placedIn (lead : Option String) (context : Tree) {document : String × Tree}
    (hd : ∀ part ∈ Corpus.parts [document], Table.Distinct part.2) (before : Corpus) :
    messagesOn lead context (confinedView before (.ofPrefix lead) context)
        (Corpus.sections [document]) =
      (Corpus.placedIn before document).flatMap fun p =>
        clauseWarnings p.file context p.value ++ p.reports lead context := by
  unfold Corpus.placedIn Corpus.sections
  rcases parts_singleton document with hnone | ⟨entries, hone⟩
  · rw [hnone]
    rfl
  · rw [hone] at hd ⊢
    have hsame : ∀ e ∈ entries, (confinedView before (.ofPrefix lead) context).get? e.1 =
        (confinedView before (.ofPrefix lead) context).get? e.1 := fun _ _ => rfl
    have hdoc := messages_document lead context document.1 (hd _ List.mem_cons_self) hsame
    rw [List.flatMap_singleton, hdoc, List.map_map, List.flatMap_map]
    rfl

/-- **The messages of all documents**, by induction on those that are left: what they are laid over
is the merged data of those in front. -/
theorem messages_from (lead : Option String) (context : Tree) {rest : Corpus}
    (hd : ∀ part ∈ rest.parts, Table.Distinct part.2) (before : Corpus) :
    messagesOn lead context (confinedView before (.ofPrefix lead) context) rest.sections =
      (Corpus.placedFrom before rest).flatMap fun p =>
        clauseWarnings p.file context p.value ++ p.reports lead context := by
  induction rest generalizing before with
  | nil => rfl
  | cons document rest ih =>
    rw [← List.singleton_append] at hd ⊢
    rw [parts_append] at hd
    obtain ⟨hhead, hrest⟩ := List.forall_mem_append.mp hd
    have hnext : (Corpus.sections [document]).foldl (viewStep (.ofPrefix lead) context)
        (confinedView before (.ofPrefix lead) context) =
          confinedView (before ++ [document]) (.ofPrefix lead) context := by
      unfold confinedView
      rw [sections_append, List.foldl_append]
    rw [sections_append, messagesOn_append, hnext, messages_placedIn lead context hhead,
      ih hrest, ← List.flatMap_append]
    rfl

/-! ## What is there before -/

/-- **There is a value under a key exactly if a document has set it.** -/
theorem isSome_get?_confinedView (corpus : Corpus) (lead : Option String) (context : Tree)
    (key : Scalar) :
    ((confinedView corpus (.ofPrefix lead) context).get? key).isSome = true ↔
      ∃ part ∈ corpus.parts, Table.contains part.2 key = true := by
  rw [get?_confinedView, sectionView_eq, Option.isSome_map, List.getLast?_isSome]
  constructor
  · intro hheld
    obtain ⟨held, hin⟩ := List.exists_mem_of_ne_nil _ hheld
    obtain ⟨part, hpart, -, k, he, hk⟩ := mem_heldSections hin
    exact ⟨part, hpart, Table.contains_iff.mpr ⟨_, he, hk⟩⟩
  · rintro ⟨part, hpart, hset⟩
    obtain ⟨e, he, hk⟩ := Table.contains_iff.mp hset
    have hsection : (part.1, e) ∈ corpus.sections :=
      List.mem_flatMap.mpr ⟨part, hpart, List.mem_map_of_mem he⟩
    rw [heldSections_eq]
    exact List.ne_nil_of_mem (List.mem_map_of_mem (List.mem_filter.mpr ⟨hsection, hk⟩))

/-! ## Equal values of different kinds -/

namespace Scalar

/-- The kind of the scalars that count as this; those that count as a number are of several. -/
def Ident.kind? : Ident → Option (Except KindFault Kind)
  | .null => some (.ok .null)
  | .number _ => none
  | .infinite _ => some (.ok .float)
  | .nan _ => some (.ok .float)
  | .text _ => some (.ok .string)
  | .day _ => some (.ok .timestamp)
  | .clock _ => some (.ok .timestamp)
  | .instant _ => some (.ok .timestamp)
  | .foreign f => some (.error (.unsupported f))

theorem kind?_ident (s : Scalar) :
    (∃ q, s.ident = .number q) ∨ s.ident.kind? = some s.kind? := by
  cases s with
  | null => exact .inr rfl
  | bool b => exact .inl ⟨_, rfl⟩
  | int n => exact .inl ⟨_, rfl⟩
  | float x =>
    unfold ident
    dsimp only
    split
    · exact .inl ⟨_, rfl⟩
    · exact .inr rfl
    · exact .inr rfl
  | str s => exact .inr rfl
  | date d => exact .inr rfl
  | datetime t =>
    unfold ident
    dsimp only
    split
    · exact .inr rfl
    · exact .inr rfl
  | foreign f =>
    cases f with
    | complex => exact .inl ⟨_, rfl⟩
    | set texts others => exact .inr rfl
    | bytes content => exact .inr rfl
    | tuple size => exact .inr rfl
    | object number => exact .inr rfl

end Scalar

/-- The values count as one number. -/
def OneNumber (a b : Tree) : Prop :=
  ∃ s t q, a = .scalar s ∧ b = .scalar t ∧ s.ident = .number q ∧ t.ident = .number q

/-- **Equal values are of one kind**, but for numbers, which booleans count as too. -/
theorem kind?_of_equals {a b : Tree} (h : a.equals b = true) :
    a.kind? = b.kind? ∨ OneNumber a b := by
  have halike : a.alike b = true := (Bool.and_eq_true_iff.mp h).1
  match a, b, halike with
  | .scalar s, .scalar t, halike =>
    have hident : s.ident = t.ident := Scalar.beq_iff.mp halike
    rcases s.kind?_ident with ⟨q, hq⟩ | hs
    · exact .inr ⟨s, t, q, rfl, rfl, hq, hident ▸ hq⟩
    · rcases t.kind?_ident with ⟨q, hq⟩ | ht
      · exact .inr ⟨s, t, q, rfl, rfl, hident.trans hq, hq⟩
      · rw [hident, ht] at hs
        exact .inl (Option.some.inj hs).symm
  | .seq _, .seq _, _ => exact .inl rfl
  | .map _, .map _, _ => exact .inl rfl

/-! ## All messages -/

namespace Placed

theorem isOneOf_version {key : Scalar} :
    key.isOneOf ["version"] = false ↔ key ≠ .str "version" := by
  cases key <;> simp [Scalar.isOneOf]

/-- The value that the documents in front of a section leave under its key. -/
def previous? (lead : Option String) (context : Tree) (p : Placed) : Option Tree :=
  (confinedView p.before (.ofPrefix lead) context).get? p.key

theorem redefines_iff {p : Placed} (lead : Option String) (context : Tree) :
    p.Redefines ↔ (p.value.isMap || p.key.isOneOf ["version"]) = false ∧
      (p.previous? lead context).isSome = true := by
  unfold Redefines previous?
  rw [isSome_get?_confinedView, Bool.or_eq_false_iff, isOneOf_version, and_assoc]

theorem reports_of_not_redefines {p : Placed} (h : ¬ p.Redefines) (lead : Option String)
    (context : Tree) : p.reports lead context = [] := by
  rw [redefines_iff lead context] at h
  unfold reports redefinition
  split
  · rfl
  · rename_i hplain
    split
    · rfl
    · rename_i previous hprevious
      have hsome : (p.previous? lead context).isSome = true := by
        unfold previous?
        rw [hprevious]
        rfl
      exact absurd ⟨Bool.not_eq_true _ ▸ hplain, hsome⟩ h

theorem reports_of_redefines {p : Placed} {lead : Option String} {context : Tree}
    (h : p.Redefines) : ∃ previous, p.previous? lead context = some previous ∧
      p.reports lead context =
        [if previous.equals p.value then .note (p.label context)
          else .warning (p.label context ++ " (previous value: " ++ previous.render ++
            ", new value: " ++ p.value.render ++ ")")] := by
  obtain ⟨hplain, hsome⟩ := (redefines_iff lead context).mp h
  obtain ⟨previous, hprevious⟩ := Option.isSome_iff_exists.mp hsome
  refine ⟨previous, hprevious, ?_⟩
  unfold previous? at hprevious
  unfold reports redefinition
  rw [hplain, if_neg Bool.false_ne_true, hprevious]
  dsimp only
  split
  · rfl
  · rfl

end Placed

/-- **The messages of the merge of a context.** Besides the reports about confine clauses there is
one for each section that redefines a key, in order, and it compares the value with what the merge
of the documents in front leaves there. A note means that the two are equal, a warning names both
that are not; so a mere note about a value of another kind means that both count as one number. -/
theorem mergeConfined_reports {corpus : Corpus}
    (hd : ∀ part ∈ corpus.parts, Table.Distinct part.2) (lead : Option String) (context : Tree) :
    (mergeConfined corpus (.ofPrefix lead) context).messages =
      (corpus.placed.flatMap fun p =>
        clauseWarnings p.file context p.value ++ p.reports lead context) ∧
    ∀ p ∈ corpus.placed,
      (¬ p.Redefines → p.reports lead context = []) ∧
      (p.Redefines → ∃ merged previous,
        (mergeConfined p.before (.ofPrefix lead) context).outcome = .ok merged ∧
        merged.get? p.key = some previous ∧
        (previous.equals p.value = true → p.reports lead context = [.note (p.label context)] ∧
          (previous.kind? = p.value.kind? ∨ OneNumber previous p.value)) ∧
        (previous.equals p.value = false → p.reports lead context =
          [.warning (p.label context ++ " (previous value: " ++ previous.render ++
            ", new value: " ++ p.value.render ++ ")")])) := by
  refine ⟨messages_from lead context hd [], fun p _ => ⟨fun h => ?_, fun h => ?_⟩⟩
  · exact p.reports_of_not_redefines h lead context
  · obtain ⟨previous, hprevious, hreports⟩ := Placed.reports_of_redefines h
    refine ⟨_, previous, mergeConfined_ofPrefix p.before lead context, hprevious, ?_, ?_⟩
    · intro hequal
      rw [hequal, if_pos rfl] at hreports
      exact ⟨hreports, kind?_of_equals hequal⟩
    · intro hother
      rw [hother, if_neg Bool.false_ne_true] at hreports
      exact hreports

/-- A number that becomes a truth value is noted; one that becomes a text of its look is not. -/
theorem mergeConfined_reports_owners :
    let corpus : Corpus := [
      ("a.yaml", .map [(.str "version", .str "2.0.0"), (.str "owner", .int 1),
        (.str "uid", .int 2)]),
      ("b.yaml", .map [(.str "version", .str "1.0.0"), (.str "owner", .bool true),
        (.str "uid", .str "2")])]
    (∀ part ∈ corpus.parts, Table.Distinct part.2) ∧
    (mergeConfined corpus (.ofPrefix (some "--")) .null).messages =
      [.note "b.yaml (no confinement data): key owner redefined",
        .warning ("b.yaml (no confinement data): key uid redefined" ++
          " (previous value: 2, new value: 2)")] := by
  intro corpus
  have hd : ∀ part ∈ corpus.parts, Table.Distinct part.2 := by
    unfold Table.Distinct
    decide
  exact ⟨hd, (mergeConfined_reports hd (some "--") .null).1.trans (by decide +kernel)⟩

end Compliance
