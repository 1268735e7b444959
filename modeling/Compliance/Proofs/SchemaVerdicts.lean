import Compliance.Proofs.LoggedFacts
import Compliance.Proofs.SchemaGrammar
import Compliance.Proofs.UnionFacts

/-! # The rules find what the schema forbids

A rule settles a property when it finds nothing exactly if the property holds, and no finding of it
is a note. Rules are put together as their properties are, so each rule is judged by the rules that
it runs.

* `Settles`: a list of findings settles a property; `append`, `flatMap`, `overEntries`, `ifPresent`
  and the like put lists together.
* `owed_settles`: a field that only complete data have to hold.
* `checkRule_settles`, `profileFieldsRule_settles`, `ceFieldsRule_settles`: the rules for one body
  settle its record in the grammar.
-/

namespace Compliance.Schema

/-- The findings settle `P`: there is none exactly if `P` holds, and none is a note. -/
structure Settles (findings : List Finding) (P : Prop) : Prop where
  eq_nil_iff : findings = [] ↔ P
  noNote : ∀ f ∈ findings, f.level ≠ .note

variable {P Q : Prop}

/-! ## Putting findings together -/

namespace Settles

theorem nil : Settles [] True := ⟨iff_of_true rfl trivial, fun _ h => absurd h List.not_mem_nil⟩

theorem congr {findings : List Finding} (h : Settles findings P) (hpq : P ↔ Q) :
    Settles findings Q := ⟨h.eq_nil_iff.trans hpq, h.noNote⟩

theorem one {level : Level} (h : level ≠ .note) (wording : Wording) :
    Settles [⟨level, wording⟩] False :=
  ⟨iff_of_false (List.cons_ne_nil _ _) id, fun _ hf => List.mem_singleton.mp hf ▸ h⟩

theorem error (wording : Wording) : Settles [⟨.error, wording⟩] False :=
  one Level.noConfusion wording

theorem warning (wording : Wording) : Settles [⟨.warning, wording⟩] False :=
  one Level.noConfusion wording

theorem append {fs gs : List Finding} (hf : Settles fs P) (hg : Settles gs Q) :
    Settles (fs ++ gs) (P ∧ Q) where
  eq_nil_iff := List.append_eq_nil_iff.trans (and_congr hf.eq_nil_iff hg.eq_nil_iff)
  noNote f h := (List.mem_append.mp h).elim (hf.noNote f) (hg.noNote f)

/-- What each item settles, all of them settle of all. -/
theorem flatMap {α : Type} {items : List α} {rule : α → List Finding} {P : α → Prop}
    (h : ∀ x ∈ items, Settles (rule x) (P x)) :
    Settles (items.flatMap rule) (∀ x ∈ items, P x) where
  eq_nil_iff := List.flatMap_eq_nil_iff.trans (forall₂_congr fun x hx => (h x hx).eq_nil_iff)
  noNote f hf := by
    obtain ⟨x, hx, hin⟩ := List.mem_flatMap.mp hf
    exact (h x hx).noNote f hin

theorem warnUnless {test : Bool} (wording : Wording) (h : test = true ↔ P) :
    Settles (warnUnless test wording) P := by
  unfold Schema.warnUnless
  split
  · rename_i ht
    exact nil.congr (iff_of_true trivial (h.mp ht))
  · rename_i ht
    exact (warning wording).congr (iff_of_false id fun hp => ht (h.mpr hp))

theorem failUnless {test : Bool} (wording : Wording) (h : test = true ↔ P) :
    Settles (failUnless test wording) P := by
  unfold Schema.failUnless
  split
  · rename_i ht
    exact nil.congr (iff_of_true trivial (h.mp ht))
  · rename_i ht
    exact (error wording).congr (iff_of_false id fun hp => ht (h.mpr hp))

theorem overEntries {file what : String} {judge : Scalar → Tree → List Finding}
    {P : Scalar × Tree → Prop} (h : ∀ key value, Settles (judge key value) (P (key, value)))
    (t : Tree) : Settles (overEntries file what t judge) (MappingIn (fun m => ∀ e ∈ m, P e) t) := by
  cases t with
  | map entries => exact flatMap fun e _ => h e.1 e.2
  | scalar s => exact warning _
  | seq items => exact warning _

theorem overItems {file what : String} {judge : Tree → List Finding} {P : Tree → Prop}
    (h : ∀ u, Settles (judge u) (P u)) (t : Tree) :
    Settles (overItems file what t judge) (ListOf P t) := by
  cases t with
  | seq items => exact flatMap fun u _ => h u
  | scalar s => exact warning _
  | map entries => exact warning _

theorem ifPresent {rule : Tree → List Finding} {P : Tree → Prop} (h : ∀ t, Settles (rule t) (P t))
    (m : Mapping) (name : String) : Settles (ifPresent m name rule) (Optional m name P) := by
  unfold Schema.ifPresent Optional
  split
  · rename_i hf
    exact nil.congr (iff_of_true trivial fun t ht => nomatch hf.symm.trans ht)
  · rename_i hf
    exact nil.congr (iff_of_true trivial fun t ht => .inl (Option.some.inj (ht.symm.trans hf)))
  · rename_i value hnull hf
    refine (h value).congr ⟨fun hp t ht => ?_, fun hall => (hall value hf).resolve_left hnull⟩
    exact .inr (Option.some.inj (hf.symm.trans ht) ▸ hp)

end Settles

theorem not_isSet_iff {t : Tree} : t.isSet = false ↔ t = .null ∨ t = .bool false := by
  unfold Tree.isSet
  split
  · simp
  · simp
  · rename_i hnull hfalse
    exact iff_of_false Bool.noConfusion (not_or.mpr ⟨hnull, hfalse⟩)

theorem Settles.ifSet {rule : Tree → List Finding} {P : Tree → Prop}
    (h : ∀ t, Settles (rule t) (P t)) (m : Mapping) (name : String) :
    Settles (ifSet m name rule) (Settable m name P) := by
  unfold Schema.ifSet Settable
  split
  · rename_i hf
    exact nil.congr (iff_of_true trivial fun t ht => nomatch hf.symm.trans ht)
  · rename_i value hf
    have hvalue : ∀ {t}, Tree.field? m name = some t → value = t :=
      fun ht => Option.some.inj (hf.symm.trans ht)
    split
    · rename_i hset
      have hne : ¬ (value = .null ∨ value = .bool false) := fun he =>
        Bool.false_ne_true ((not_isSet_iff.mpr he).symm.trans hset)
      exact (h value).congr ⟨fun hp t ht => .inr (hvalue ht ▸ hp),
        fun hall => (hall value hf).resolve_left hne⟩
    · rename_i hset
      have hunset := not_isSet_iff.mp (Bool.eq_false_iff.mpr hset)
      exact nil.congr (iff_of_true trivial fun t ht => .inl (hvalue ht ▸ hunset))

/-! ## Tests -/

theorem not_mappingIn {P : Mapping → Prop} {t : Tree} (h : ∀ m, t ≠ .map m) : ¬ MappingIn P t := by
  cases t with
  | map m => exact absurd rfl (h m)
  | scalar | seq => exact id

theorem isOneOf_iff {s : Scalar} {names : List String} :
    s.isOneOf names = true ↔ ∃ name ∈ names, s = .str name := by
  cases s <;> simp [Scalar.isOneOf]

theorem isText_iff {s : Scalar} : s.isText = true ↔ ∃ name, s = .str name := by
  cases s <;> simp [Scalar.isText]

theorem asText?_isSome {t : Tree} : t.asText?.isSome = true ↔ IsText t := by
  unfold Tree.asText?
  split
  · rename_i s
    exact iff_of_true rfl ⟨s, rfl⟩
  · rename_i h
    exact iff_of_false Bool.false_ne_true fun ⟨s, hs⟩ => h s hs

theorem isTrue_iff {t : Tree} : isTrue t = true ↔ t = .bool true := by
  unfold isTrue
  split
  · exact iff_of_true rfl rfl
  · rename_i h
    exact iff_of_false Bool.false_ne_true h

theorem isSet_iff {t : Tree} : t.isSet = true ↔ t ≠ .null ∧ t ≠ .bool false := by
  rw [← not_or, ← not_isSet_iff, Bool.not_eq_false]

theorem integer_iff {t : Tree} : decide (t.dataType = .integer) = true ↔ ∃ n, t = .int n := by
  cases t with
  | scalar s => cases s <;> simp [Tree.dataType, Scalar.dataType]
  | seq items => simp [Tree.dataType]
  | map entries => simp [Tree.dataType]

/-! ## Field rules -/

theorem knownKeys_settles (place : Wording) (names : List String) (m : Mapping) :
    Settles (knownKeys place names m) (OnlyKeys names m) :=
  Settles.flatMap fun _ _ => .warnUnless _ isOneOf_iff

theorem textField_settles (what file : String) (t : Tree) :
    Settles (textField what file t) (IsText t) := .warnUnless _ asText?_isSome

/-- What switches something on, whatever the test for it. -/
theorem switchesRule_settles {on : Tree → Bool} {P : Tree → Prop} (h : ∀ t, on t = true ↔ P t)
    (what item file : String) (t : Tree) :
    Settles (switchesRule what item on file t) (TextKeyed P t) :=
  .overEntries (fun _ _ => .warnUnless _
    ((Bool.and_eq_true_iff).trans (and_congr isText_iff (h _)))) t

theorem controlsRule_settles (file : String) (t : Tree) :
    Settles (controlsRule file t) (Controls t) :=
  switchesRule_settles (fun _ => isSet_iff) "controls" "control" file t

/-- The CEs and the checks of a profile. -/
theorem references_settles (what item file : String) (t : Tree) :
    Settles (switchesRule what item isTrue file t) (References t) :=
  switchesRule_settles (fun _ => isTrue_iff) what item file t

theorem confineRule_settles (file : String) (t : Tree) :
    Settles (confineRule file t) (AnyMapping t) :=
  (Settles.overEntries (P := fun _ => True) (fun _ _ => .nil) t).congr <| by
    cases t <;> simp [MappingIn, AnyMapping]

theorem identifiersRule_settles (file : String) (t : Tree) :
    Settles (identifiersRule file t) (Identifiers t) := by
  refine .overEntries (fun key value => ?_) t
  split
  · rename_i name items
    have hitems : Settles
        (items.flatMap fun t =>
          warnUnless t.asText?.isSome [.fixed (file ++ ": bad identifier '"), .tree t, .fixed "'"])
        (∀ u ∈ items, IsText u) := .flatMap fun _ _ => .warnUnless _ asText?_isSome
    exact hitems.congr ⟨fun h => ⟨⟨name, rfl⟩, h⟩, fun h => h.2⟩
  · rename_i h
    refine (Settles.warning _).congr (iff_of_false id fun ⟨⟨name, hname⟩, hlist⟩ => ?_)
    cases value with
    | seq items => exact h name items hname rfl
    | scalar s => exact hlist
    | map entries => exact hlist

/-- The OVAL identifiers of anything, and the CEs of a check. -/
theorem textItemsRule_settles (what item file : String) (t : Tree) :
    Settles (textItemsRule what item file t) (ListOf IsText t) :=
  .overItems (fun _ => .warnUnless _ asText?_isSome) t

theorem importedDataRule_settles (file : String) (t : Tree) :
    Settles (importedDataRule file t) (ImportedData t) :=
  .overEntries (fun _ _ => .append (.warnUnless _ isOneOf_iff) (.warnUnless _ asText?_isSome)) t

/-! ## Profiles and CEs -/

theorem profileFieldsRule_settles (file : String) (profile : Scalar) (m : Mapping) :
    Settles (profileFieldsRule file profile m) (Profile m) := by
  have h := knownKeys_settles [.fixed (file ++ " (profile '"), .plain profile, .fixed "')"]
        profileKeys m
    |>.append (.ifPresent (textField_settles "title" file) m "title")
    |>.append (.ifPresent (textField_settles "description" file) m "description")
    |>.append (.ifPresent (controlsRule_settles file) m "controls")
    |>.append (.ifPresent (references_settles "ces" "ce" file) m "ces")
    |>.append (.ifPresent (references_settles "checks" "check" file) m "checks")
    |>.append (.ifPresent (confineRule_settles file) m "confine")
  refine h.congr ⟨?_, ?_⟩
  · rintro ⟨⟨⟨⟨⟨⟨keys, title⟩, description⟩, controls⟩, ces⟩, checks⟩, confine⟩
    exact ⟨keys, title, description, controls, ces, checks, confine⟩
  · rintro ⟨keys, title, description, controls, ces, checks, confine⟩
    exact ⟨⟨⟨⟨⟨⟨keys, title⟩, description⟩, controls⟩, ces⟩, checks⟩, confine⟩

theorem ceFieldsRule_settles (file : String) (ce : Scalar) (m : Mapping) :
    Settles (ceFieldsRule file ce m) (Ce m) := by
  have h := knownKeys_settles [.fixed (file ++ " (CE '"), .plain ce, .fixed "')"] ceKeys m
    |>.append (.ifPresent (textField_settles "title" file) m "title")
    |>.append (.ifPresent (textField_settles "description" file) m "description")
    |>.append (.ifPresent (controlsRule_settles file) m "controls")
    |>.append (.ifPresent (identifiersRule_settles file) m "identifiers")
    |>.append (.ifPresent (textItemsRule_settles "oval-ids" "oval-id" file) m "oval-ids")
    |>.append (.ifPresent (confineRule_settles file) m "confine")
    |>.append (.ifPresent (importedDataRule_settles file) m "imported_data")
  refine h.congr ⟨?_, ?_⟩
  · rintro ⟨⟨⟨⟨⟨⟨⟨keys, title⟩, description⟩, controls⟩, identifiers⟩, ovalIds⟩, confine⟩, imported⟩
    exact ⟨keys, title, description, controls, identifiers, ovalIds, confine, imported⟩
  · rintro ⟨keys, title, description, controls, identifiers, ovalIds, confine, imported⟩
    exact ⟨⟨⟨⟨⟨⟨⟨keys, title⟩, description⟩, controls⟩, identifiers⟩, ovalIds⟩, confine⟩, imported⟩

/-! ## Checks -/

theorem typeRule_settles (subject : Wording) (t : Tree) :
    Settles (typeRule subject t) (t = .str "puppet-class-parameter") :=
  .failUnless _ equals_str

theorem parameterRule_settles (subject : Wording) (t : Tree) :
    Settles (parameterRule subject t) (∃ s, t = .str s ∧ s ≠ "") := by
  refine .failUnless _ ?_
  split
  · rename_i s
    simp
  · rename_i h
    exact iff_of_false Bool.false_ne_true fun ⟨s, hs, _⟩ => h s hs

theorem settingsRule_settles (subject : Wording) (t : Tree) :
    Settles (settingsRule subject t) (MappingIn Settings t) := by
  unfold settingsRule
  split
  · exact .error _
  · rename_i m
    have hvalue : Settles
        (failUnless (Tree.field? m "value").isSome
          (subject ++ [.fixed ": missing key 'value'"]))
        (Required m "value" fun _ => True) :=
      .failUnless _ (by simp [Required, Option.isSome_iff_exists])
    refine Settles.congr (P := (Required m "parameter" (fun t => ∃ s, t = .str s ∧ s ≠ "") ∧
        Required m "value" fun _ => True) ∧ OnlyKeys settingsKeys m)
      (.append (.append ?parameter hvalue) (knownKeys_settles subject settingsKeys m)) ?fields
    case parameter =>
      unfold Required
      cases Tree.field? m "parameter" with
      | none => exact (Settles.error _).congr (by simp)
      | some parameter => exact (parameterRule_settles subject parameter).congr (by simp)
    case fields =>
      constructor
      · rintro ⟨⟨parameter, value⟩, keys⟩
        exact ⟨parameter, value, keys⟩
      · rintro ⟨parameter, value, keys⟩
        exact ⟨⟨parameter, value⟩, keys⟩
  · rename_i hmap
    exact (Settles.error _).congr (iff_of_false id (not_mappingIn hmap))

/-! ### Remediation -/

/-- What the shape of a remediation section says of one entry. -/
def RemediationShape.Admits (shape : RemediationShape) (P : Tree → Prop) : Tree → Prop :=
  MappingIn fun m => OnlyKeys shape.known m ∧ Required m shape.required P

variable {shape : RemediationShape} {Accepted : Tree → Prop}

theorem remediationEntryRule_settles (subject : Wording) (section_ : Scalar)
    (h : ∀ t, shape.accepts t = true ↔ Accepted t) (t : Tree) :
    Settles (remediationEntryRule subject section_ shape t) (shape.Admits Accepted t) := by
  cases t with
  | map m =>
    refine .append (.flatMap fun _ _ => .warnUnless _ isOneOf_iff) (.failUnless _ ?_)
    unfold Required
    cases Tree.field? m shape.required with
    | none => simp
    | some value => simp [h]
  | scalar s => exact .error _
  | seq items => exact .error _

theorem shapedSection_settles (subject : Wording) {section_ : Scalar}
    (hs : remediationShape? section_ = some shape) (h : ∀ t, shape.accepts t = true ↔ Accepted t)
    (t : Tree) :
    Settles (remediationSectionRule subject section_ t) (ListOf (shape.Admits Accepted) t) := by
  unfold remediationSectionRule
  rw [hs]
  cases t with
  | seq items => exact .flatMap fun u _ => remediationEntryRule_settles subject section_ h u
  | scalar s => exact .error _
  | map m => exact .error _

theorem remediationSectionRule_settles (subject : Wording) (section_ : Scalar) (t : Tree) :
    Settles (remediationSectionRule subject section_ t)
      ((section_ = .str "scan-false-positive" ∨ section_ = .str "disabled") ∧ Reasons t ∨
        section_ = .str "risk" ∧ Risks t) := by
  by_cases hreason : section_ = .str "scan-false-positive" ∨ section_ = .str "disabled"
  · have hshape : remediationShape? section_ = some reasonShape := by
      rcases hreason with rfl | rfl <;> rfl
    have hrisk : section_ ≠ .str "risk" := by rcases hreason with rfl | rfl <;> simp
    refine (shapedSection_settles subject hshape (fun _ => asText?_isSome) t).congr ?_
    exact ⟨fun h => .inl ⟨hreason, h⟩, fun h => (h.resolve_right fun hr => hrisk hr.1).2⟩
  · by_cases hrisk : section_ = .str "risk"
    · have hshape : remediationShape? section_ = some riskShape := by
        rw [hrisk]
        rfl
      refine (shapedSection_settles subject hshape (fun _ => integer_iff) t).congr ?_
      exact ⟨fun h => .inr ⟨hrisk, h⟩, fun h => (h.resolve_left fun hl => hreason hl.1).2⟩
    · have hshape : remediationShape? section_ = none := by
        simp [remediationShape?, isOneOf_iff, hreason, hrisk]
      unfold remediationSectionRule
      rw [hshape]
      exact (Settles.warning _).congr
        (iff_of_false id fun h => h.elim (fun hl => hreason hl.1) fun hr => hrisk hr.1)

theorem remediationRule_settles (subject : Wording) (t : Tree) :
    Settles (remediationRule subject t) (Remediation t) := by
  cases t with
  | map sections =>
    exact .flatMap fun ⟨name, value⟩ _ => remediationSectionRule_settles subject name value
  | scalar s => exact .error _
  | seq items => exact .error _

/-! ### The body of a check -/

/-- A field that only complete data have to hold. A rule that a null fails is asked in complete data
even where the field is absent. -/
theorem owed_settles {rule : Tree → List Finding} {P : Tree → Prop} (complete : Bool)
    (h : ∀ t, Settles (rule t) (P t)) (hnull : ¬ P .null) (m : Mapping) (name : String) :
    Settles
      (if complete then rule ((Tree.field? m name).getD .null) else ifSet m name rule)
      (Owed (complete = true) m name P) := by
  cases complete with
  | false => exact (Settles.ifSet h m name).congr ⟨fun hs => ⟨Bool.noConfusion, hs⟩, And.right⟩
  | true =>
    refine (h _).congr ⟨fun hp => ?_, fun ⟨hreq, _⟩ => ?_⟩
    · cases hf : Tree.field? m name with
      | none =>
        rw [hf] at hp
        exact absurd hp hnull
      | some t =>
        rw [hf] at hp
        exact ⟨fun _ => ⟨t, hf, hp⟩, fun u hu => .inr (Option.some.inj (hf.symm.trans hu) ▸ hp)⟩
    · obtain ⟨t, hf, hp⟩ := hreq rfl
      rw [hf]
      exact hp

theorem checkRule_settles (file : String) (complete : Bool) (check : Scalar) (t : Tree) :
    Settles (checkRule file complete check t) (MappingIn (Check (complete = true)) t) := by
  unfold checkRule
  split
  · exact .warning _
  · rename_i m
    have h := knownKeys_settles (checkSubject file check) checkKeys m
      |>.append (owed_settles complete (typeRule_settles (checkSubject file check)) (by simp) m
        "type")
      |>.append (owed_settles complete (settingsRule_settles (checkSubject file check)) id m
        "settings")
      |>.append (.ifSet (remediationRule_settles (checkSubject file check)) m "remediation")
      |>.append (.ifPresent (controlsRule_settles file) m "controls")
      |>.append (.ifPresent (identifiersRule_settles file) m "identifiers")
      |>.append (.ifPresent (textItemsRule_settles "oval-ids" "oval-id" file) m "oval-ids")
      |>.append (.ifPresent (textItemsRule_settles "ces" "ce" file) m "ces")
      |>.append (.ifPresent (confineRule_settles file) m "confine")
    refine h.congr ⟨?_, ?_⟩
    · rintro ⟨⟨⟨⟨⟨⟨⟨⟨keys, type⟩, settings⟩, remediation⟩, controls⟩, identifiers⟩, ovalIds⟩, ces⟩,
        confine⟩
      exact ⟨keys, type, settings, remediation, controls, identifiers, ovalIds, ces, confine⟩
    · rintro ⟨keys, type, settings, remediation, controls, identifiers, ovalIds, ces, confine⟩
      exact ⟨⟨⟨⟨⟨⟨⟨⟨keys, type⟩, settings⟩, remediation⟩, controls⟩, identifiers⟩, ovalIds⟩, ces⟩,
        confine⟩
  · rename_i hmap
    exact (Settles.error _).congr (iff_of_false id (not_mappingIn hmap))

end Compliance.Schema
