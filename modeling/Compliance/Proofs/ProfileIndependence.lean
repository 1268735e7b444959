import Compliance.Proofs.CompileMessages
import Compliance.Proofs.ConfinedEntries
import Compliance.Proofs.Routes
import Compliance.Proofs.Runs
import Mathlib.Data.List.Forall2

/-! # What a profile depends on

The sections of the documents are merged into one mapping, and the entries of a section into one
section; all are rebuilt with every document. Still no section has any influence on another, and in
a section no entry has any on another. So a profile compiles to the same over corpora that agree on
the checks, the CEs and the profile itself.

* `SameEntry`: two values of a section agree on one entry.
* `AgreeFor`, `CorporaAgree`: documents, and corpora, that agree on all that a profile depends on.
* `heldSections_rel`: what the documents hold for a section.
* `get?_sectionStep_congr`, `get?_foldl_sectionStep_congr`: one document, and all documents, over
  one entry of a section.
* `pulledChecks_congr`, `errors_compile`: the checks of a profile, and the errors about them.
* `compile_congr`: so the profile compiles to the same, with the same errors.
-/

namespace Compliance

open Compliance.Tree (Throughout DistinctNode mappingAt)

/-! ## Agreement -/

/-- Both values are mappings with the same under the key, if anything; or neither is a mapping. -/
structure SameEntry (key : Scalar) (t u : Tree) : Prop where
  isMap : t.isMap = u.isMap
  entry : Table.get? t.entries key = Table.get? u.entries key

/-- **Two documents agree for a profile**: they have the same checks and the same CEs, and profiles
that agree on this one, or no profiles at all. -/
structure AgreeFor (profile : Scalar) (a b : Mapping) : Prop where
  checks : Tree.field? a "checks" = Tree.field? b "checks"
  ce : Tree.field? a "ce" = Tree.field? b "ce"
  profiles : Option.Rel (SameEntry profile) (Tree.field? a "profiles") (Tree.field? b "profiles")

/-- Two corpora of mappings agree for a profile, file by file. -/
def CorporaAgree (profile : Scalar) (c₁ c₂ : Corpus) : Prop :=
  List.Forall₂ (fun d₁ d₂ => d₁.1 = d₂.1 ∧ ∃ a b, d₁.2 = .map a ∧ d₂.2 = .map b ∧
    AgreeFor profile a b) c₁ c₂

variable {profile : Scalar} {c₁ c₂ : Corpus}

theorem CorporaAgree.parts (h : CorporaAgree profile c₁ c₂) :
    List.Forall₂ (fun p q => p.1 = q.1 ∧ AgreeFor profile p.2 q.2) c₁.parts c₂.parts := by
  refine List.rel_filterMap (fun d₁ d₂ hd => ?_) h
  obtain ⟨file, t⟩ := d₁
  obtain ⟨file', u⟩ := d₂
  obtain ⟨rfl, a, b, rfl, rfl, hab⟩ := hd
  by_cases hname : file = mergedName
  · simp only [hname, if_true]
    exact .none
  · simp only [hname, if_false]
    exact .some ⟨rfl, hab⟩

/-! ## What the documents hold -/

theorem heldSections_rel {S : Tree → Tree → Prop} (name : String)
    (hd₁ : ∀ part ∈ c₁.parts, Throughout DistinctNode (.map part.2))
    (hd₂ : ∀ part ∈ c₂.parts, Throughout DistinctNode (.map part.2))
    (h : List.Forall₂
      (fun p q => p.1 = q.1 ∧ Option.Rel S (Tree.field? p.2 name) (Tree.field? q.2 name))
      c₁.parts c₂.parts) :
    List.Forall₂ (fun p q => p.1 = q.1 ∧ S p.2 q.2) (heldSections c₁ (.str name))
      (heldSections c₂ (.str name)) := by
  rw [heldSections_eq_filterMap fun part hpart => (hd₁ part hpart).here,
    heldSections_eq_filterMap fun part hpart => (hd₂ part hpart).here]
  refine List.rel_filterMap (fun p q hpq => ?_) h
  obtain ⟨hfile, hrel⟩ := hpq
  change Option.Rel S (Table.get? p.2 (.str name)) (Table.get? q.2 (.str name)) at hrel
  generalize Table.get? p.2 (.str name) = t at hrel ⊢
  generalize Table.get? q.2 (.str name) = u at hrel ⊢
  cases hrel with
  | none => exact .none
  | some hsame => exact .some ⟨hfile, hsame⟩

/-! ## One entry of a section -/

variable {key : Scalar} {context : Tree}

/-- **One more document**: an entry of a section depends on what was there and on the entry of the
document, if the value is a mapping; anything else leaves nothing of it. -/
theorem get?_sectionStep_congr {knockout : Knockout} {current current' : Option Tree}
    {file : String} {t u : Tree} (ht : Table.Distinct t.entries) (hu : Table.Distinct u.entries)
    (hsame : SameEntry key t u)
    (h : Table.get? (Merge.existingEntries current) key =
      Table.get? (Merge.existingEntries current') key) :
    Table.get? (Merge.existingEntries (sectionStep knockout context current (file, t))) key =
      Table.get? (Merge.existingEntries (sectionStep knockout context current' (file, u))) key := by
  rw [get?_sectionStep ht, get?_sectionStep hu, hsame.isMap, hsame.entry, h]

/-- **All documents**: values that agree on an entry make sections that agree on it. -/
theorem get?_foldl_sectionStep_congr {knockout : Knockout} {held held' : List (String × Tree)}
    (h : List.Forall₂ (fun p q => p.1 = q.1 ∧ SameEntry key p.2 q.2) held held')
    (hd : ∀ p ∈ held, Table.Distinct p.2.entries) (hd' : ∀ p ∈ held', Table.Distinct p.2.entries)
    {current current' : Option Tree}
    (hcurrent : Table.get? (Merge.existingEntries current) key =
      Table.get? (Merge.existingEntries current') key) :
    Table.get? (Merge.existingEntries (held.foldl (sectionStep knockout context) current)) key =
      Table.get? (Merge.existingEntries (held'.foldl (sectionStep knockout context) current'))
        key := by
  induction h generalizing current current' with
  | nil => exact hcurrent
  | @cons p q r r' hpq _ ih =>
    obtain ⟨file, t⟩ := p
    obtain ⟨file', u⟩ := q
    obtain ⟨rfl, hsame⟩ := hpq
    rw [List.foldl_cons, List.foldl_cons]
    exact ih (fun p hp => hd p (List.mem_cons_of_mem _ hp))
      (fun p hp => hd' p (List.mem_cons_of_mem _ hp))
      (get?_sectionStep_congr (hd _ List.mem_cons_self) (hd' _ List.mem_cons_self) hsame hcurrent)

/-! ## The checks of a profile -/

section
variable (hd₁ : ∀ part ∈ c₁.parts, Throughout DistinctNode (.map part.2))
  (hd₂ : ∀ part ∈ c₂.parts, Throughout DistinctNode (.map part.2))
  (hagree : CorporaAgree profile c₁ c₂) (lead : Option String) (context : Tree)
include hd₁ hd₂ hagree

theorem mappingAt_congr {name : String}
    (hname : ∀ {a b : Mapping}, AgreeFor profile a b → Tree.field? a name = Tree.field? b name) :
    mappingAt (confinedView c₁ (.ofPrefix lead) context) name =
      mappingAt (confinedView c₂ (.ofPrefix lead) context) name := by
  have hrefl : ∀ o : Option Tree, Option.Rel (· = ·) o o := fun o => by
    cases o with
    | none => exact .none
    | some t => exact .some rfl
  have hrel : List.Forall₂
      (fun p q => p.1 = q.1 ∧ Option.Rel (· = ·) (Tree.field? p.2 name) (Tree.field? q.2 name))
      c₁.parts c₂.parts :=
    hagree.parts.imp fun p q hpq => ⟨hpq.1, by rw [hname hpq.2]; exact hrefl _⟩
  have heq : heldSections c₁ (.str name) = heldSections c₂ (.str name) := by
    rw [← List.forall₂_eq_eq_eq]
    exact (heldSections_rel name hd₁ hd₂ hrel).imp fun p q hpq => Prod.ext hpq.1 hpq.2
  rw [mappingAt_eq_existingEntries, mappingAt_eq_existingEntries, get?_confinedView,
    get?_confinedView, heq]

theorem profileMapping_congr :
    profileMapping (confinedView c₁ (.ofPrefix lead) context) profile =
      profileMapping (confinedView c₂ (.ofPrefix lead) context) profile := by
  have hheld := heldSections_rel "profiles" hd₁ hd₂
    (hagree.parts.imp fun p q hpq => ⟨hpq.1, hpq.2.profiles⟩)
  unfold profileMapping
  rw [mappingAt_eq_existingEntries, mappingAt_eq_existingEntries, get?_confinedView,
    get?_confinedView, sectionView, sectionView,
    get?_foldl_sectionStep_congr hheld (fun _ h => distinct_heldSections hd₁ h)
      (fun _ h => distinct_heldSections hd₂ h) rfl]

/-- **The profile pulls in the same checks.** -/
theorem pulledChecks_congr (checkType : String) :
    pulledChecks c₁ lead checkType profile context =
      pulledChecks c₂ lead checkType profile context := by
  have hchecks := mappingAt_congr hd₁ hd₂ hagree lead context AgreeFor.checks
  have hces := mappingAt_congr hd₁ hd₂ hagree lead context AgreeFor.ce
  have hprofile := profileMapping_congr hd₁ hd₂ hagree lead context
  unfold pulledChecks profileChecks
  dsimp only
  rw [profileBody_eq, profileBody_eq, hprofile, buildCheckMap_eq, buildCheckMap_eq, hchecks, hces]

end

/-! ## Compilation -/

theorem errors_compile (corpus : Corpus) (lead : Option String) (checkType : String)
    (profile : Scalar) (context : Tree) :
    Message.textsAt .error
        (Compiler.compile ⟨corpus, .ofPrefix lead, checkType⟩ profile context).messages =
      Message.textsAt .error
        (resolve profile context
          ((pulledChecks corpus lead checkType profile context).map
            Compiler.settingOf)).messages := by
  rw [compile_messages, textsAt_append, textsAt_append,
    textsAt_eq_nil.mpr (quiet_mergeConfined _ _ _), textsAt_eq_nil.mpr (quiet_buildCheckMap _ _ _),
    List.nil_append, List.nil_append]
  split
  · rename_i hempty
    rw [List.isEmpty_iff.mp hempty, textsAt_eq_nil.mpr (quiet_note _)]
    rfl
  · rfl

/-- **What a profile compiles to depends on the checks, the CEs and the profile only.** Over corpora
that agree on these, the compilation has the same outcome, the same parameters in the same order and
the same errors; and it ends with parameters if the documents are checked. -/
theorem compile_congr {profile : Scalar} {c₁ c₂ : Corpus}
    (hd₁ : ∀ part ∈ c₁.parts, Throughout DistinctNode (.map part.2))
    (hd₂ : ∀ part ∈ c₂.parts, Throughout DistinctNode (.map part.2))
    (hagree : CorporaAgree profile c₁ c₂) (lead : Option String) (checkType : String)
    (context : Tree) :
    (Compiler.compile ⟨c₁, .ofPrefix lead, checkType⟩ profile context).outcome =
      (Compiler.compile ⟨c₂, .ofPrefix lead, checkType⟩ profile context).outcome ∧
    Message.textsAt .error
        (Compiler.compile ⟨c₁, .ofPrefix lead, checkType⟩ profile context).messages =
      Message.textsAt .error
        (Compiler.compile ⟨c₂, .ofPrefix lead, checkType⟩ profile context).messages ∧
    (CheckedDocuments c₁ → ∃ data,
      (Compiler.compile ⟨c₁, .ofPrefix lead, checkType⟩ profile context).outcome = .ok data ∧
      (Compiler.compile ⟨c₂, .ofPrefix lead, checkType⟩ profile context).outcome = .ok data) := by
  have hchecks := pulledChecks_congr hd₁ hd₂ hagree lead context checkType
  have houtcome : (Compiler.compile ⟨c₁, .ofPrefix lead, checkType⟩ profile context).outcome =
      (Compiler.compile ⟨c₂, .ofPrefix lead, checkType⟩ profile context).outcome := by
    rw [compile_outcome, compile_outcome, hchecks]
  refine ⟨houtcome, by rw [errors_compile, errors_compile, hchecks], fun hchecked => ?_⟩
  obtain ⟨data, hdata⟩ := compile_total hchecked lead checkType profile context
  exact ⟨data, hdata, houtcome ▸ hdata⟩

/-- Two checks that set a parameter to values of different kinds. -/
def clashingChecks : Tree := .map [
  (.str "c", .map [
    (.str "type", .str "puppet-class-parameter"),
    (.str "settings", .map [(.str "parameter", .str "a"), (.str "value", .int 1)])]),
  (.str "d", .map [
    (.str "type", .str "puppet-class-parameter"),
    (.str "settings", .map [(.str "parameter", .str "a"), (.str "value", .str "on")])])]

/-- A profile that pulls in both. -/
def clashingProfile : Tree :=
  .map [(.str "checks", .map [(.str "c", .bool true), (.str "d", .bool true)])]

/-- The profile, next to another one. -/
def besideOther : Corpus := [
  ("a.yaml", .map [(.str "profiles", .str "none")]),
  ("b.yaml", .map [
    (.str "profiles", .map [
      (.str "web", .map [(.str "checks", .map [(.str "c", .bool true)])]),
      (.str "base", clashingProfile)]),
    (.str "checks", clashingChecks)])]

/-- The profile by itself, behind a key that is no section. -/
def byItself : Corpus := [
  ("a.yaml", .map [(.str "profiles", .seq [])]),
  ("b.yaml", .map [
    (.str "version", .str "2.0.0"),
    (.str "checks", clashingChecks),
    (.str "profiles", .map [(.str "base", clashingProfile)])])]

/-- The profile compiles to the same in both, with one error. -/
theorem compile_congr_other :
    (∀ part ∈ besideOther.parts, Throughout DistinctNode (.map part.2)) ∧
    (∀ part ∈ byItself.parts, Throughout DistinctNode (.map part.2)) ∧
    CorporaAgree (.str "base") besideOther byItself ∧ CheckedDocuments besideOther ∧
    (∃ data, (Compiler.compile ⟨besideOther, .ofPrefix (some "--"), "puppet-class-parameter"⟩
        (.str "base") .null).outcome = .ok data ∧
      (Compiler.compile ⟨byItself, .ofPrefix (some "--"), "puppet-class-parameter"⟩
        (.str "base") .null).outcome = .ok data) ∧
    (Message.textsAt .error (Compiler.compile ⟨besideOther, .ofPrefix (some "--"),
      "puppet-class-parameter"⟩ (.str "base") .null).messages).length = 1 ∧
    Message.textsAt .error (Compiler.compile ⟨besideOther, .ofPrefix (some "--"),
        "puppet-class-parameter"⟩ (.str "base") .null).messages =
      Message.textsAt .error (Compiler.compile ⟨byItself, .ofPrefix (some "--"),
        "puppet-class-parameter"⟩ (.str "base") .null).messages := by
  have hd₁ : ∀ part ∈ besideOther.parts, Throughout DistinctNode (.map part.2) :=
    distinct_parts (by decide)
  have hd₂ : ∀ part ∈ byItself.parts, Throughout DistinctNode (.map part.2) :=
    distinct_parts (by decide)
  have hagree : CorporaAgree (.str "base") besideOther byItself :=
    .cons ⟨rfl, _, _, rfl, rfl, rfl, rfl, .some ⟨rfl, rfl⟩⟩
      (.cons ⟨rfl, _, _, rfl, rfl, rfl, rfl, .some ⟨rfl, rfl⟩⟩ .nil)
  have hchecked : CheckedDocuments besideOther :=
    List.forall_mem_cons.mpr ⟨rfl, List.forall_mem_singleton.mpr rfl⟩
  obtain ⟨-, herrors, hends⟩ :=
    compile_congr hd₁ hd₂ hagree (some "--") "puppet-class-parameter" .null
  exact ⟨hd₁, hd₂, hagree, hchecked, hends hchecked, rfl, herrors⟩

end Compliance
