import Compliance.Proofs.CompileMessages
import Compliance.Proofs.SchemaVerdicts
import Compliance.Proofs.WrittenValues

/-! # Linting and indexing judge checks alike

The checks of the merged view are judged twice. The rules report about every one of them, and the
index takes a check up or skips it with a warning. The two look at the same fields in another order
and with another notion of absence; they part company over an empty parameter only.

* `errors_checkRule`: the errors about a body are about its type, its settings or its remediation.
* `lead_of_error`, `not_aboutRemediation`: how errors about the type and the settings begin, so that
  none is taken for one about the remediation.
* `usable_of_no_errors`, `errors_of_usable`: a body without errors about type and settings is
  usable; a usable one has such an error only where its parameter is empty.
* `condemned_of_unusable`: a check that is not usable is reported as such.
* `lint_agrees_with_index`: both together, over all checks of the merged view.
-/

namespace Compliance

open Schema
open Compliance.Tree (mappingAt mapField?_eq_some)
open Compliance.Message (textsAt)

/-! ## Rules that only warn -/

/-- No finding is an error. -/
def Lenient (findings : List Finding) : Prop := ∀ f ∈ findings, f.level ≠ .error

def errorTexts (findings : List Finding) : List String := textsAt .error (messages findings)

theorem errorTexts_append (fs gs : List Finding) :
    errorTexts (fs ++ gs) = errorTexts fs ++ errorTexts gs := by
  rw [errorTexts, messages_append, textsAt_append]
  rfl

theorem errorTexts_eq_nil {findings : List Finding} :
    errorTexts findings = [] ↔ Lenient findings :=
  textsAt_eq_nil.trans List.forall_mem_map

theorem lenient_nil : Lenient [] := fun _ h => absurd h List.not_mem_nil

theorem lenient_warning (wording : Wording) : Lenient [⟨.warning, wording⟩] := fun _ h =>
  List.mem_singleton.mp h ▸ Level.noConfusion

theorem Lenient.append {fs gs : List Finding} (hf : Lenient fs) (hg : Lenient gs) :
    Lenient (fs ++ gs) := List.forall_mem_append.mpr ⟨hf, hg⟩

theorem lenient_flatMap {α : Type} {items : List α} {rule : α → List Finding}
    (h : ∀ x, Lenient (rule x)) : Lenient (items.flatMap rule) := by
  intro f hf
  obtain ⟨x, -, hx⟩ := List.mem_flatMap.mp hf
  exact h x f hx

theorem lenient_warnUnless (test : Bool) (wording : Wording) :
    Lenient (warnUnless test wording) := by
  unfold warnUnless
  split
  · exact lenient_nil
  · exact lenient_warning _

theorem lenient_knownKeys (place : Wording) (known : List String) (m : Mapping) :
    Lenient (knownKeys place known m) := lenient_flatMap fun _ => lenient_warnUnless _ _

theorem lenient_overEntries {judge : Scalar → Tree → List Finding}
    (h : ∀ key value, Lenient (judge key value)) (file what : String) (t : Tree) :
    Lenient (overEntries file what t judge) := by
  cases t with
  | map entries => exact lenient_flatMap fun e => h e.1 e.2
  | scalar s => exact lenient_warning _
  | seq items => exact lenient_warning _

theorem lenient_switchesRule (what item : String) (on : Tree → Bool) (file : String) (t : Tree) :
    Lenient (switchesRule what item on file t) := by
  apply lenient_overEntries
  exact fun _ _ => lenient_warnUnless _ _

theorem lenient_textItemsRule (what item file : String) (t : Tree) :
    Lenient (textItemsRule what item file t) := by
  cases t with
  | seq items => exact lenient_flatMap fun _ => lenient_warnUnless _ _
  | scalar s => exact lenient_warning _
  | map entries => exact lenient_warning _

theorem lenient_identifiersRule (file : String) (t : Tree) : Lenient (identifiersRule file t) := by
  apply lenient_overEntries
  intro key value
  split
  · exact lenient_flatMap fun _ => lenient_warnUnless _ _
  · exact lenient_warning _

theorem lenient_ifPresent {rule : Tree → List Finding} (h : ∀ t, Lenient (rule t)) (m : Mapping)
    (name : String) : Lenient (ifPresent m name rule) := by
  unfold ifPresent
  split
  · exact lenient_nil
  · exact lenient_nil
  · exact h _

/-- Everything about a body besides its type, its settings and its remediation is a warning. -/
theorem lenient_fields (file : String) (body : Mapping) :
    Lenient (ifPresent body "controls" (controlsRule file) ++
      ifPresent body "identifiers" (identifiersRule file) ++
      ifPresent body "oval-ids" (ovalIdsRule file) ++ ifPresent body "ces" (checkCesRule file) ++
      ifPresent body "confine" (confineRule file)) := by
  have hconfine : ∀ t, Lenient (confineRule file t) :=
    lenient_overEntries (fun _ _ => lenient_nil) file "confine"
  exact lenient_ifPresent (lenient_switchesRule "controls" "control" Tree.isSet file) _ _
    |>.append (lenient_ifPresent (lenient_identifiersRule file) _ _)
    |>.append (lenient_ifPresent (lenient_textItemsRule "oval-ids" "oval-id" file) _ _)
    |>.append (lenient_ifPresent (lenient_textItemsRule "ces" "ce" file) _ _)
    |>.append (lenient_ifPresent hconfine _ _)

/-! ## The errors about a body -/

/-- The type of a body as the rules see it: a body without one has the type null. -/
abbrev typeOf (body : Mapping) : Tree := (Tree.field? body "type").getD .null

/-- The settings of a body as the rules see them. -/
abbrev settingsOf (body : Mapping) : Tree := (Tree.field? body "settings").getD .null

/-- **The errors about a body** of the merged view. -/
theorem errors_checkRule (file : String) (check : Scalar) (body : Mapping) :
    errorTexts (checkRule file true check (.map body)) =
      errorTexts (typeRule (checkSubject file check) (typeOf body)) ++
        errorTexts (settingsRule (checkSubject file check) (settingsOf body)) ++
        errorTexts (ifSet body "remediation" (remediationRule (checkSubject file check))) := by
  have hkeys := errorTexts_eq_nil.mpr (lenient_knownKeys (checkSubject file check) checkKeys body)
  have hfields := errorTexts_eq_nil.mpr (lenient_fields file body)
  simp only [errorTexts_append, List.append_eq_nil_iff] at hfields
  obtain ⟨⟨⟨⟨hcontrols, hidentifiers⟩, hovalIds⟩, hces⟩, hconfine⟩ := hfields
  unfold checkRule
  simp only [if_true, errorTexts_append, hkeys, hcontrols, hidentifiers, hovalIds, hces, hconfine,
    List.nil_append, List.append_nil]

theorem errorTexts_failUnless (test : Bool) (wording : Wording) :
    errorTexts (failUnless test wording) = if test then [] else [wording.text] := by
  unfold failUnless
  cases test <;> rfl

/-- The errors about settings that are a mapping: the parameter, then the value. -/
theorem errors_settingsRule (subject : Wording) (settings : Mapping) :
    errorTexts (settingsRule subject (.map settings)) =
      (match Tree.field? settings "parameter" with
        | some parameter => errorTexts (parameterRule subject parameter)
        | none => [subject.text ++ ": missing key 'parameter'"]) ++
      if (Tree.field? settings "value").isSome then []
      else [subject.text ++ ": missing key 'value'"] := by
  have hkeys := errorTexts_eq_nil.mpr (lenient_knownKeys subject settingsKeys settings)
  unfold settingsRule
  simp only [errorTexts_append, hkeys, List.append_nil, errorTexts_failUnless, Wording.text_append,
    Wording.text_singleton, Piece.text]
  cases Tree.field? settings "parameter" with
  | some parameter => rfl
  | none => simp [errorTexts, messages, Finding.message, Finding.text, textsAt, Piece.text]

/-! ## How errors begin -/

/-- The text is about the remediation of the subject. -/
def AboutRemediation (subject text : String) : Prop :=
  (subject ++ ": malformed remediation section").toList <+: text.toList

/-- What follows the subject in errors about a type and about settings. -/
def settingLeads : List String :=
  [": unknown type '", ": missing settings", ": malformed settings '", ": invalid parameter '",
    ": missing key 'parameter'", ": missing key 'value'"]

theorem mem_failUnless {test : Bool} {wording : Wording} {f : Finding}
    (h : f ∈ failUnless test wording) : f = ⟨.error, wording⟩ := by
  unfold failUnless at h
  split at h
  · cases h
  · exact List.mem_singleton.mp h

theorem leads_text {subject : Wording} (level : Level) (lead : String) (more : Wording) :
    (subject.text ++ lead).toList <+:
      (Finding.text ⟨level, subject ++ .fixed lead :: more⟩).toList := by
  rw [Finding.text, Wording.text_append, Wording.text, Piece.text, ← String.append_assoc,
    String.toList_append (s := subject.text ++ lead)]
  exact List.prefix_append _ _

section
variable {subject : Wording} {t u : Tree} {f : Finding}

theorem lead_of_parameterRule (h : f ∈ parameterRule subject t) :
    (subject.text ++ ": invalid parameter '").toList <+: f.text.toList :=
  mem_failUnless h ▸ leads_text _ _ _

theorem lead_of_typeRule (h : f ∈ typeRule subject t) :
    (subject.text ++ ": unknown type '").toList <+: f.text.toList :=
  mem_failUnless h ▸ leads_text _ _ _

theorem lead_of_settingsRule (h : f ∈ settingsRule subject t) (he : f.level = .error) :
    ∃ lead ∈ settingLeads, (subject.text ++ lead).toList <+: f.text.toList := by
  unfold settingsRule at h
  split at h
  · rw [List.mem_singleton.mp h]
    exact ⟨": missing settings", by simp [settingLeads], leads_text _ _ _⟩
  · rename_i settings
    rcases List.mem_append.mp h with h | hkeys
    · rcases List.mem_append.mp h with hparameter | hvalue
      · split at hparameter
        · exact ⟨": invalid parameter '", by simp [settingLeads], lead_of_parameterRule hparameter⟩
        · rw [List.mem_singleton.mp hparameter]
          exact ⟨": missing key 'parameter'", by simp [settingLeads], leads_text _ _ _⟩
      · rw [mem_failUnless hvalue]
        exact ⟨": missing key 'value'", by simp [settingLeads], leads_text _ _ _⟩
    · exact absurd he (lenient_knownKeys _ _ _ f hkeys)
  · rw [List.mem_singleton.mp h]
    exact ⟨": malformed settings '", by simp [settingLeads], leads_text _ _ _⟩

/-- **Errors about a type and about settings** say so behind their subject. -/
theorem lead_of_error (h : f ∈ typeRule subject t ++ settingsRule subject u)
    (he : f.level = .error) :
    ∃ lead ∈ settingLeads, (subject.text ++ lead).toList <+: f.text.toList := by
  rcases List.mem_append.mp h with htype | hsettings
  · exact ⟨": unknown type '", by simp [settingLeads], lead_of_typeRule htype⟩
  · exact lead_of_settingsRule hsettings he

/-- No error about a type or about settings is about the remediation. -/
theorem not_aboutRemediation (h : f ∈ typeRule subject t ++ settingsRule subject u)
    (he : f.level = .error) : ¬ AboutRemediation subject.text f.text := by
  intro habout
  obtain ⟨lead, hlead, htext⟩ := lead_of_error h he
  -- two beginnings of one text are comparable, and so are they behind the subject
  have hcomparable : lead.toList <+: ": malformed remediation section".toList ∨
      ": malformed remediation section".toList <+: lead.toList := by
    have hboth := List.prefix_or_prefix_of_prefix htext habout
    simpa only [String.toList_append, List.prefix_append_right_inj] using hboth
  have happart : ∀ lead ∈ settingLeads,
      ¬ (lead.toList <+: ": malformed remediation section".toList ∨
        ": malformed remediation section".toList <+: lead.toList) := by
    decide
  exact happart lead hlead hcomparable

theorem aboutRemediation_of_lead {subject text : String} (tail : String)
    (h : (subject ++ (": malformed remediation section" ++ tail)).toList <+: text.toList) :
    AboutRemediation subject text := by
  refine List.IsPrefix.trans ?_ h
  rw [← String.append_assoc, String.toList_append (s := subject ++ _)]
  exact List.prefix_append _ _

theorem aboutRemediation_entry {section_ : Scalar} {shape : RemediationShape}
    (h : f ∈ remediationEntryRule subject section_ shape t) (he : f.level = .error) :
    AboutRemediation subject.text f.text := by
  have hmalformed : AboutRemediation subject.text (Finding.text ⟨.error, subject ++
      [.fixed ": malformed remediation section ", .plain section_,
        .fixed (", " ++ shape.expected)]⟩) := aboutRemediation_of_lead " " (leads_text _ _ _)
  cases t with
  | map fields =>
    rcases List.mem_append.mp h with hunknown | hrequired
    · exact absurd he (lenient_flatMap (fun _ => lenient_warnUnless _ _) f hunknown)
    · rw [mem_failUnless hrequired]
      exact hmalformed
  | scalar s =>
    rw [List.mem_singleton.mp h]
    exact hmalformed
  | seq items =>
    rw [List.mem_singleton.mp h]
    exact hmalformed

theorem aboutRemediation_sectionRule {section_ : Scalar}
    (h : f ∈ remediationSectionRule subject section_ t) (he : f.level = .error) :
    AboutRemediation subject.text f.text := by
  unfold remediationSectionRule at h
  split at h
  · exact absurd he (lenient_warning _ f h)
  · split at h
    · obtain ⟨entry, -, hentry⟩ := List.mem_flatMap.mp h
      exact aboutRemediation_entry hentry he
    · rw [List.mem_singleton.mp h]
      exact aboutRemediation_of_lead " " (leads_text _ _ _)

/-- **Errors about a remediation** say so behind their subject. -/
theorem aboutRemediation_of_error (h : f ∈ remediationRule subject t) (he : f.level = .error) :
    AboutRemediation subject.text f.text := by
  have hhash : AboutRemediation subject.text (Finding.text ⟨.error, subject ++
      [.fixed ": malformed remediation section, expecting a hash."]⟩) :=
    aboutRemediation_of_lead ", expecting a hash." (leads_text _ _ _)
  cases t with
  | map sections =>
    obtain ⟨⟨name, value⟩, -, hsection⟩ := List.mem_flatMap.mp h
    exact aboutRemediation_sectionRule hsection he
  | scalar s =>
    rw [List.mem_singleton.mp h]
    exact hhash
  | seq items =>
    rw [List.mem_singleton.mp h]
    exact hhash

theorem aboutRemediation_ifSet {body : Mapping} {text : String}
    (h : text ∈ errorTexts (ifSet body "remediation" (remediationRule subject))) :
    AboutRemediation subject.text text := by
  obtain ⟨m, hm, rfl⟩ := List.mem_map.mp h
  obtain ⟨hin, hlevel⟩ := List.mem_filter.mp hm
  obtain ⟨f, hf, rfl⟩ := List.mem_map.mp hin
  unfold ifSet at hf
  split at hf
  · cases hf
  · split at hf
    · exact aboutRemediation_of_error hf (of_decide_eq_true hlevel)
    · cases hf

end

/-! ## Usable bodies -/

theorem errors_typeRule (subject : Wording) (t : Tree) :
    errorTexts (typeRule subject t) = [] ↔ t = .str parameterCheckType := by
  unfold typeRule
  rw [errorTexts_failUnless, ← equals_str]
  split <;> simp_all

theorem errors_parameterRule (subject : Wording) (t : Tree) :
    errorTexts (parameterRule subject t) = [] ↔ ∃ s, t = .str s ∧ s ≠ "" := by
  rw [← (parameterRule_settles subject t).eq_nil_iff]
  unfold parameterRule
  rw [errorTexts_failUnless]
  unfold failUnless
  split <;> simp

theorem isMap_of_no_errors {subject : Wording} {t : Tree}
    (h : errorTexts (settingsRule subject t) = []) : ∃ settings, t = .map settings := by
  have hlogged : ∀ wording, errorTexts [⟨.error, wording⟩] ≠ [] := fun _ => List.cons_ne_nil _ _
  unfold settingsRule at h
  split at h
  · exact absurd h (hlogged _)
  · rename_i settings
    exact ⟨settings, rfl⟩
  · exact absurd h (hlogged _)

theorem isOfType_iff {body : Mapping} :
    isOfType parameterCheckType body = true ↔ typeOf body = .str parameterCheckType := by
  unfold isOfType typeOf
  cases Tree.field? body "type" with
  | none => simp
  | some t => simp [equals_str]

theorem settingsOf_eq_map {body settings : Mapping} :
    settingsOf body = .map settings ↔ Tree.mapField? body "settings" = some settings := by
  rw [mapField?_eq_some]
  unfold settingsOf
  cases Tree.field? body "settings" <;> simp

/-- **A body without errors about its type and its settings is usable**, with a parameter that is
not empty. -/
theorem usable_of_no_errors {subject : Wording} {body : Mapping}
    (htype : errorTexts (typeRule subject (typeOf body)) = [])
    (hsettings : errorTexts (settingsRule subject (settingsOf body)) = []) :
    ∃ check, UsableCheck.of? parameterCheckType (.map body) = .ok check ∧
      check.parameter ≠ "" := by
  obtain ⟨settings, hmap⟩ := isMap_of_no_errors hsettings
  rw [hmap, errors_settingsRule, List.append_eq_nil_iff] at hsettings
  obtain ⟨hparameter, hvalue⟩ := hsettings
  cases hp : Tree.field? settings "parameter" with
  | none =>
    rw [hp] at hparameter
    cases hparameter
  | some t =>
    rw [hp] at hparameter
    obtain ⟨parameter, rfl, hne⟩ := (errors_parameterRule subject t).mp hparameter
    cases hv : Tree.field? settings "value" with
    | none =>
      rw [hv] at hvalue
      cases hvalue
    | some value =>
      have hof := isOfType_iff.mpr ((errors_typeRule subject _).mp htype)
      have hfound := settingsOf_eq_map.mp hmap
      exact ⟨⟨body, parameter, value⟩, of?_eq_ok.mpr ⟨rfl, hof, settings, hfound, hp, hv⟩, hne⟩

/-- **The errors about a usable body**: about its type none, about its settings one if the parameter
is empty. -/
theorem errors_of_usable {subject : Wording} {body : Mapping} {check : UsableCheck}
    (h : UsableCheck.of? parameterCheckType (.map body) = .ok check) :
    errorTexts (typeRule subject (typeOf body)) ++
        errorTexts (settingsRule subject (settingsOf body)) =
      if check.parameter = "" then [subject.text ++ ": invalid parameter ''"] else [] := by
  obtain ⟨hbody, htype, settings, hfound, hp, hv⟩ := of?_eq_ok.mp h
  obtain rfl := Tree.map.inj hbody
  have hnone := (errors_typeRule subject _).mpr (isOfType_iff.mp htype)
  rw [hnone, settingsOf_eq_map.mpr hfound, errors_settingsRule, hp, hv]
  simp only [List.nil_append, Option.isSome_some, if_true, List.append_nil]
  by_cases hempty : check.parameter = ""
  · have hfinding : parameterRule subject (.str "") =
        [⟨.error, subject ++ [.fixed ": invalid parameter '", .tree (.str ""), .fixed "'"]⟩] := rfl
    rw [if_pos hempty, hempty, hfinding]
    have htext : Wording.text (subject ++
        [.fixed ": invalid parameter '", .tree (.str ""), .fixed "'"]) =
        subject.text ++ ": invalid parameter ''" := by
      rw [Wording.text_append]
      rfl
    rw [← htext]
    rfl
  · rw [if_neg hempty]
    exact (errors_parameterRule subject _).mpr ⟨_, rfl, hempty⟩

/-! ## One check -/

/-- What the rules find about one check of the merged view. -/
def findingsAbout (e : Scalar × Tree) : List Message := messages (checkRule mergedName true e.1 e.2)

/-- How findings about a check of the merged view begin. -/
def subjectText (check : Scalar) : String := (checkSubject mergedName check).text

def emptyValue (check : Scalar) : Message := .warning (subjectText check ++ ": empty value")

/-- The finding condemns the check: it is an error, or says that the check is empty. -/
def Condemns (check : Scalar) (m : Message) : Prop :=
  (m.level = .error ∨ m = emptyValue check) ∧ (subjectText check).toList <+: m.text.toList

theorem condemns_of_error {check : Scalar} {body : Mapping} {f : Finding}
    (h : f ∈ typeRule (checkSubject mergedName check) (typeOf body) ++
      settingsRule (checkSubject mergedName check) (settingsOf body))
    (he : f.level = .error) : Condemns check f.message := by
  obtain ⟨lead, -, htext⟩ := lead_of_error h he
  rw [String.toList_append] at htext
  exact ⟨.inl he, (List.prefix_append _ _).trans htext⟩

theorem mem_findingsAbout {check : Scalar} {body : Mapping} {f : Finding}
    (h : f ∈ typeRule (checkSubject mergedName check) (typeOf body) ++
      settingsRule (checkSubject mergedName check) (settingsOf body)) :
    f.message ∈ findingsAbout (check, .map body) := by
  refine List.mem_map_of_mem ?_
  unfold checkRule
  simp only [if_true, List.mem_append] at h ⊢
  rcases h with htype | hsettings
  · simp [htype]
  · simp [hsettings]

/-- **A check that is not usable is condemned** by a finding about it. -/
theorem condemned_of_unusable {check : Scalar} {t : Tree} {reason : Unusable}
    (h : UsableCheck.of? parameterCheckType t = .error reason) :
    ∃ m ∈ findingsAbout (check, t), Condemns check m := by
  have hbehind : ∀ more : Wording,
      (subjectText check).toList <+: (checkSubject mergedName check ++ more).text.toList := by
    intro more
    rw [Wording.text_append, String.toList_append]
    exact List.prefix_append _ _
  cases t with
  | scalar s =>
    cases s with
    | null =>
      refine ⟨_, List.mem_singleton.mpr rfl, .inr ?_, hbehind _⟩
      rw [Finding.message, Finding.text, Wording.text_append, Wording.text_singleton]
      rfl
    | _ => exact ⟨_, List.mem_singleton.mpr rfl, .inl rfl, hbehind _⟩
  | seq items => exact ⟨_, List.mem_singleton.mpr rfl, .inl rfl, hbehind _⟩
  | map body =>
    -- without an error about type and settings the body would be usable
    apply Classical.byContradiction
    intro hnone
    have hlenient : Lenient (typeRule (checkSubject mergedName check) (typeOf body) ++
        settingsRule (checkSubject mergedName check) (settingsOf body)) := fun f hf he =>
      hnone ⟨f.message, mem_findingsAbout hf, condemns_of_error hf he⟩
    have hquiet := errorTexts_eq_nil.mpr hlenient
    rw [errorTexts_append, List.append_eq_nil_iff] at hquiet
    obtain ⟨usable, husable, -⟩ := usable_of_no_errors hquiet.1 hquiet.2
    rw [husable] at h
    cases h

/-! ## All checks -/

/-- The index lists the check under its name, with its own body. -/
def Indexed (index : CheckMap) (e : Scalar × Tree) : Prop :=
  ∃ usable : UsableCheck, index.checks.get? e.1 = some [usable] ∧ e.2 = .map usable.body

theorem mappingAt_eq {m es : Mapping} {name : String} (h : Tree.mapField? m name = some es) :
    mappingAt m name = es := by
  rw [mappingAt, h, Option.getD_some]

section
variable {checks merged : Mapping} (hd : Table.Distinct checks)
  (hm : Tree.mapField? merged "checks" = some checks) (context : Tree)
include hd hm

theorem get?_buildCheckMap {e : Scalar × Tree} (he : e ∈ checks) :
    (buildCheckMap parameterCheckType merged context).1.checks.get? e.1 =
      (UsableCheck.of? parameterCheckType e.2).toOption.map fun usable => [usable] := by
  have hfound : Table.get? (usableChecks parameterCheckType checks) e.1 =
      (UsableCheck.of? parameterCheckType e.2).toOption := by
    rw [usableChecks, Table.get?_filterMap hd fun t =>
      (UsableCheck.of? parameterCheckType t).toOption, Table.get?_of_mem hd he, Option.bind_some]
  have hindex := get?_checks (mappingAt merged "ce") e.1
    (usableChecks parameterCheckType checks) {} (distinct_usableChecks hd _)
  rw [buildCheckMap_eq, mappingAt_eq hm]
  refine hindex.trans ?_
  rw [hfound]
  exact Option.or_none

/-- **Each check is indexed, or skipped with a warning.** -/
theorem indexed_or_skipped {e : Scalar × Tree} (he : e ∈ checks) :
    let built := buildCheckMap parameterCheckType merged context
    Indexed built.1 e ∨ built.1.checks.get? e.1 = none ∧
      ∃ reason, UsableCheck.of? parameterCheckType e.2 = .error reason ∧
        skipWarning context e.1 reason ∈ built.2 := by
  dsimp only
  unfold Indexed
  rw [get?_buildCheckMap hd hm context he]
  cases hu : UsableCheck.of? parameterCheckType e.2 with
  | ok usable => exact .inl ⟨usable, rfl, (of?_eq_ok.mp hu).1⟩
  | error reason =>
    refine .inr ⟨rfl, reason, rfl, ?_⟩
    rw [buildCheckMap_eq, mappingAt_eq hm]
    refine List.mem_flatMap.mpr ⟨e, he, ?_⟩
    rw [hu]
    exact List.mem_singleton.mpr rfl

/-- Where no check is condemned, the index has every check and adds no warning. -/
theorem indexed_of_clean
    (hclean : ∀ e ∈ checks, ∀ m ∈ findingsAbout e, ¬ Condemns e.1 m) :
    (buildCheckMap parameterCheckType merged context).2 = [] ∧
      ∀ e ∈ checks, Indexed (buildCheckMap parameterCheckType merged context).1 e := by
  have husable : ∀ e ∈ checks, ∃ usable, UsableCheck.of? parameterCheckType e.2 = .ok usable := by
    intro e he
    cases hu : UsableCheck.of? parameterCheckType e.2 with
    | ok usable => exact ⟨usable, rfl⟩
    | error reason =>
      obtain ⟨m, hmem, hcond⟩ : ∃ m ∈ findingsAbout e, Condemns e.1 m := condemned_of_unusable hu
      exact absurd hcond (hclean e he m hmem)
  constructor
  · rw [buildCheckMap_eq, mappingAt_eq hm]
    refine List.flatMap_eq_nil_iff.mpr fun e he => ?_
    obtain ⟨usable, hu⟩ := husable e he
    rw [hu]
  · intro e he
    rcases indexed_or_skipped hd hm context he with hindexed | ⟨-, reason, hreason, -⟩
    · exact hindexed
    · obtain ⟨usable, hu⟩ := husable e he
      exact nomatch hu.symm.trans hreason

theorem errors_of_indexed {e : Scalar × Tree} (he : e ∈ checks) {usable : UsableCheck}
    (h : (buildCheckMap parameterCheckType merged context).1.checks.get? e.1 = some [usable]) :
    ∃ remediation, textsAt .error (findingsAbout e) =
        (if usable.parameter = "" then [subjectText e.1 ++ ": invalid parameter ''"]
          else []) ++ remediation ∧
      ∀ text ∈ remediation, AboutRemediation (subjectText e.1) text := by
  rw [get?_buildCheckMap hd hm context he] at h
  cases hu : UsableCheck.of? parameterCheckType e.2 with
  | error reason =>
    rw [hu] at h
    cases h
  | ok found =>
    rw [hu] at h
    obtain rfl : found = usable := by simpa [Except.toOption] using h
    obtain ⟨name, t⟩ := e
    obtain rfl : t = .map found.body := (of?_eq_ok.mp hu).1
    refine ⟨errorTexts (ifSet found.body "remediation"
      (remediationRule (checkSubject mergedName name))), ?_, fun _ => aboutRemediation_ifSet⟩
    have herrors := errors_checkRule mergedName name found.body
    rwa [errors_of_usable hu] at herrors

end

/-- **Linting and indexing judge the checks of the merged view alike.** Linting goes over all
checks, and says of each what the rules find about it. Each check is indexed or skipped with a
warning. If linting adds no error and finds no check empty, the index has every check and adds no
warning. A check that is skipped is condemned by a finding about it; one that is indexed has no
error but about its remediation, unless its parameter is empty. -/
theorem lint_agrees_with_index {checks merged : Mapping} (hd : Table.Distinct checks)
    (hm : Tree.mapField? merged "checks" = some checks) (context : Tree) :
    let lint := checksRule mergedName (.map checks)
    let built := buildCheckMap parameterCheckType merged context
    (lint.outcome = .ok () ∧ lint.messages = checks.flatMap findingsAbout) ∧
    (∀ e ∈ checks, Indexed built.1 e ∨ built.1.checks.get? e.1 = none ∧
      ∃ reason, skipWarning context e.1 reason ∈ built.2) ∧
    ((∀ m ∈ lint.messages, m.level ≠ .error ∧ ∀ e ∈ checks, m ≠ emptyValue e.1) →
      built.2 = [] ∧ ∀ e ∈ checks, Indexed built.1 e) ∧
    (∀ e ∈ checks, built.1.checks.get? e.1 = none → ∃ m ∈ findingsAbout e, Condemns e.1 m) ∧
    (∀ e ∈ checks, ∀ usable, built.1.checks.get? e.1 = some [usable] →
      ∃ remediation, textsAt .error (findingsAbout e) =
          (if usable.parameter = "" then [subjectText e.1 ++ ": invalid parameter ''"]
            else []) ++ remediation ∧
        ∀ text ∈ remediation, AboutRemediation (subjectText e.1) text) ∧
    ∀ (subject : Wording) t u, ∀ m ∈ messages (typeRule subject t ++ settingsRule subject u),
      m.level = .error → ¬ AboutRemediation subject.text m.text := by
  have hrun : checksRule mergedName (.map checks) = .log (checks.flatMap findingsAbout) := by
    rw [checksRule, demand_of_sayable (Wording.fault?_unlimited _)]
    change Logged.andThen (.done checks) _ = _
    simp only [say_unlimited, messages_flatMap, decide_true]
    rfl
  have hlint : (checksRule mergedName (.map checks)).messages = checks.flatMap findingsAbout := by
    rw [hrun]
    rfl
  refine ⟨⟨by rw [hrun]; rfl, hlint⟩, ?judged, ?clean, ?skipped, ?errors, ?apart⟩
  case judged =>
    intro e he
    refine (indexed_or_skipped hd hm context he).imp_right ?_
    rintro ⟨hnone, reason, -, hwarning⟩
    exact ⟨hnone, reason, hwarning⟩
  case clean =>
    intro hfindings
    apply indexed_of_clean hd hm context
    rintro e he m hmem ⟨hcond, -⟩
    rw [hlint] at hfindings
    obtain ⟨hlevel, hempty⟩ := hfindings m (List.mem_flatMap.mpr ⟨e, he, hmem⟩)
    exact hcond.elim hlevel (hempty e he)
  case skipped =>
    intro e he hnone
    rcases indexed_or_skipped hd hm context he with ⟨usable, hsome, -⟩ | ⟨-, reason, hreason, -⟩
    · exact nomatch hsome.symm.trans hnone
    · exact condemned_of_unusable hreason
  case errors => exact fun e he usable h => errors_of_indexed hd hm context he h
  case apart =>
    intro subject t u m hm he
    obtain ⟨f, hf, rfl⟩ := List.mem_map.mp hm
    exact not_aboutRemediation hf he

/-- A check without a name for its parameter, and one without a body. -/
def doubtfulChecks : Mapping := [
  (.str "nameless", .map [
    (.str "type", .str "puppet-class-parameter"),
    (.str "settings", .map [(.str "value", .null), (.str "parameter", .str "")])]),
  (.str "hollow", .null)]

/-- The first is indexed in spite of its error, and the second is not. -/
theorem lint_agrees_with_index_doubtful :
    Table.Distinct doubtfulChecks ∧
    Tree.mapField? [(.str "checks", .map doubtfulChecks)] "checks" = some doubtfulChecks ∧
    (∃ m ∈ findingsAbout (.str "hollow", .null), Condemns (.str "hollow") m) ∧
    ∃ remediation, textsAt .error (findingsAbout doubtfulChecks[0]) =
      ["merged data (check 'nameless'): invalid parameter ''"] ++ remediation := by
  have hd : Table.Distinct doubtfulChecks := by
    unfold Table.Distinct
    decide
  have hm : Tree.mapField? [(.str "checks", .map doubtfulChecks)] "checks" = some doubtfulChecks :=
    rfl
  obtain ⟨-, -, -, hskipped, herrors, -⟩ := lint_agrees_with_index hd hm .null
  have hhollow := hskipped (.str "hollow", .null) (by simp [doubtfulChecks]) rfl
  obtain ⟨remediation, hnameless, -⟩ := herrors doubtfulChecks[0] (by simp [doubtfulChecks]) _ rfl
  exact ⟨hd, hm, hhollow, remediation, hnameless⟩

end Compliance
