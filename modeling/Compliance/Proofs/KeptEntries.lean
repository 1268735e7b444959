import Compliance.Proofs.ContextCoverage
import Compliance.Proofs.Redefinitions

/-! # Which entries a context keeps

The settings of an entry are gone through in order, and two things end the search: a setting that
the context does not have leaves the entry out, and one that matches keeps it. So the order counts
for no more than what is missing.

* `Tree.Same`: values that are equal, or one and the same NaN; `Tree.same_iff_alike`: this is how a
  value is looked for among others.
* `Confine.MatchedIn`: a setting matches, and the context has all settings in front of it;
  `Confine.matchedIn_cons`: one setting more.
* `Confine.excludes_eq_false_iff`: this keeps an entry, by induction on its settings.
* `Confine.MatchedIn.widen`: more allowed values, or more values in the context, keep what was kept.
* `applyConfinement_again`: a context leaves out nothing more of what it has kept.
* `confinement_keeps`: entries and sections.
* `confinement_keeps_nan`: a NaN is equal to nothing, and is matched by itself.
-/

namespace Compliance

/-- The values are equal, or one and the same NaN. -/
def Tree.Same (t u : Tree) : Prop := t.equals u = true ∨ t.isNaN = true ∧ t.alike u = true

theorem Tree.same_iff_alike {t u : Tree} : t.Same u ↔ t.alike u = true := by
  unfold Tree.Same Tree.equals
  cases t.isNaN <;> simp

namespace Confine

/-! ## The settings of an entry -/

variable {same : Tree → Tree → Prop} {present present' settings settings' : Mapping}

/-- A value that the context has for the setting is the same as an allowed one. -/
def Agrees (same : Tree → Tree → Prop) (present : Mapping) (setting : Scalar × Tree) : Prop :=
  ∃ actual, Table.get? present setting.1 = some actual ∧
    ∃ value ∈ actual.asList, ∃ t ∈ setting.2.asList, same t value

/-- A setting agrees, and the context has all settings in front of it. -/
def MatchedIn (same : Tree → Tree → Prop) (present settings : Mapping) : Prop :=
  ∃ before setting after, settings = before ++ setting :: after ∧
    (∀ s ∈ before, Table.contains present s.1 = true) ∧ Agrees same present setting

/-- The context is a mapping that agrees with a setting and has all settings in front of it. -/
def KeptBy (same : Tree → Tree → Prop) (context : Tree) (settings : Mapping) : Prop :=
  ∃ present, context = .map present ∧ MatchedIn same present settings

theorem not_matchedIn_nil : ¬ MatchedIn same present [] := by
  rintro ⟨before, setting, after, hsplit, -⟩
  simp at hsplit

/-- The first setting agrees, or the context has it and the search goes on. -/
theorem matchedIn_cons {e : Scalar × Tree} : MatchedIn same present (e :: settings) ↔
    Agrees same present e ∨
      Table.contains present e.1 = true ∧ MatchedIn same present settings := by
  constructor
  · rintro ⟨before, setting, after, hsplit, hbefore, hagrees⟩
    cases before with
    | nil =>
      obtain ⟨rfl, -⟩ := List.cons.inj hsplit
      exact .inl hagrees
    | cons first before =>
      obtain ⟨rfl, rfl⟩ := List.cons.inj hsplit
      obtain ⟨hfirst, hbefore⟩ := List.forall_mem_cons.mp hbefore
      exact .inr ⟨hfirst, before, setting, after, rfl, hbefore, hagrees⟩
  · rintro (hagrees | ⟨hfirst, before, setting, after, rfl, hbefore, hagrees⟩)
    · exact ⟨[], e, settings, rfl, fun _ hs => absurd hs List.not_mem_nil, hagrees⟩
    · exact ⟨e :: before, setting, after, rfl, List.forall_mem_cons.mpr ⟨hfirst, hbefore⟩, hagrees⟩

/-- **An entry is kept exactly if a setting agrees before one is missing.** -/
theorem excludes_eq_false_iff :
    excludes present settings = false ↔ MatchedIn Tree.Same present settings := by
  induction settings with
  | nil => exact iff_of_false (by simp [excludes]) not_matchedIn_nil
  | cons e settings ih =>
    obtain ⟨key, allowed⟩ := e
    rw [matchedIn_cons, ← ih, excludes]
    cases hget : Table.get? present key with
    | none => simp [Agrees, hget, Table.contains]
    | some actual =>
      have hagrees : Agrees Tree.Same present (key, allowed) ↔
          matchesSetting actual allowed = true := by
        simp [Agrees, hget, matchesSetting_iff, Tree.same_iff_alike]
      rw [hagrees, Table.contains, hget]
      cases hmatch : matchesSetting actual allowed <;> simp [hmatch]

/-! ## Allowing more -/

/-- The same settings in the same order allow as much, and maybe more. -/
def Widens (settings settings' : Mapping) : Prop :=
  List.Forall₂ (fun s s' => s.1 = s'.1 ∧ s.2.asList ⊆ s'.2.asList) settings settings'

/-- The context has as many values for each setting, and maybe more. -/
def Extends (present present' : Mapping) : Prop :=
  ∀ key actual, Table.get? present key = some actual →
    ∃ actual', Table.get? present' key = some actual' ∧ actual.asList ⊆ actual'.asList

theorem Extends.contains (h : Extends present present') {key : Scalar}
    (hkey : Table.contains present key = true) : Table.contains present' key = true := by
  obtain ⟨actual, hactual⟩ := Option.isSome_iff_exists.mp hkey
  obtain ⟨actual', hactual', -⟩ := h key actual hactual
  rw [Table.contains, hactual']
  rfl

theorem Agrees.widen {s s' : Scalar × Tree} (hkey : s.1 = s'.1)
    (hallowed : s.2.asList ⊆ s'.2.asList) (hcontext : Extends present present')
    (h : Agrees same present s) : Agrees same present' s' := by
  obtain ⟨actual, hactual, value, hvalue, t, ht, hsame⟩ := h
  obtain ⟨actual', hactual', hmore⟩ := hcontext s.1 actual hactual
  exact ⟨actual', hkey ▸ hactual', value, hmore hvalue, t, hallowed ht, hsame⟩

/-- **What was kept stays kept** where more is allowed and the context has more. -/
theorem MatchedIn.widen (hsettings : Widens settings settings')
    (hcontext : Extends present present') (h : MatchedIn same present settings) :
    MatchedIn same present' settings' := by
  induction hsettings with
  | nil => exact absurd h not_matchedIn_nil
  | cons hhead _ ih =>
    obtain ⟨hkey, hallowed⟩ := hhead
    refine matchedIn_cons.mpr ((matchedIn_cons.mp h).imp (.widen hkey hallowed hcontext) ?_)
    rintro ⟨hfirst, hrest⟩
    exact ⟨hkey ▸ hcontext.contains hfirst, ih hrest⟩

theorem excludes_perm (hperm : settings.Perm settings')
    (hall : ∀ s ∈ settings, Table.contains present s.1 = true) :
    excludes present settings = excludes present settings' := by
  rw [Bool.eq_iff_iff, excludes_iff hall, excludes_iff fun s hs => hall s (hperm.mem_iff.mpr hs)]
  exact forall_congr' fun s => by rw [hperm.mem_iff]

end Confine

open Confine

theorem shouldDelete_clause {specification : Tree} {settings : Mapping}
    (h : Tree.field? specification.entries "confine" = some (.map settings)) (file : String)
    (key : Scalar) (context : Tree) :
    shouldDelete file key specification context =
      (excludes context.entries settings, []) := by
  unfold shouldDelete
  rw [h]

theorem keptBy_iff {context : Tree} {settings : Mapping} :
    KeptBy Tree.Same context settings ↔ excludes context.entries settings = false := by
  rw [excludes_eq_false_iff]
  constructor
  · rintro ⟨present, rfl, hmatched⟩
    exact hmatched
  · intro hmatched
    cases context with
    | map present => exact ⟨present, rfl, hmatched⟩
    | scalar s | seq items =>
      -- no setting of an empty mapping agrees
      obtain ⟨_, _, _, _, _, _, hget, _⟩ := hmatched
      cases hget

/-! ## Sections -/

/-- A section with those of its entries that pass the test; any other value as it is. -/
def Tree.keepEntries (test : Scalar × Tree → Bool) : Tree → Tree
  | .map entries => .map (entries.filter test)
  | t => t

theorem keptUnder_eq {context : Tree} (hcontext : context ≠ .null) (file : String)
    (e : Scalar × Tree) :
    keptUnder file context e = !(shouldDelete file e.1 e.2 context).1 := by
  unfold keptUnder
  split
  · exact absurd rfl hcontext
  · rfl

theorem applyConfinement_eq {context : Tree} (hcontext : context ≠ .null) (file : String)
    (value : Tree) : (applyConfinement file value context).1 =
      value.keepEntries fun e => !(shouldDelete file e.1 e.2 context).1 := by
  cases value with
  | map entries =>
    rw [applyConfinement_map, Tree.keepEntries]
    exact congrArg Tree.map (List.filter_congr fun e _ => keptUnder_eq hcontext file e)
  | scalar s => exact applyConfinement_of_isMap file rfl context
  | seq items => exact applyConfinement_of_isMap file rfl context

/-- **What a context has kept it keeps.** -/
theorem applyConfinement_again (file : String) (value context : Tree) :
    (applyConfinement file (applyConfinement file value context).1 context).1 =
      (applyConfinement file value context).1 := by
  cases hmap : value.isMap with
  | false =>
    have hsame := applyConfinement_of_isMap file hmap context
    rw [hsame, hsame]
  | true =>
    cases value with
    | map entries =>
      rw [applyConfinement_map, applyConfinement_map, List.filter_filter]
      simp only [Bool.and_self]
    | scalar s | seq items => cases hmap

/-- **Which entries a context keeps.** -/
theorem confinement_keeps :
    (∀ file key specification context settings,
      Tree.field? specification.entries "confine" = some (.map settings) →
      ((shouldDelete file key specification context).1 = false ↔
        KeptBy Tree.Same context settings)) ∧
    (∀ file key specification specification' present settings settings',
      Tree.field? specification.entries "confine" = some (.map settings) →
      Tree.field? specification'.entries "confine" = some (.map settings') →
      settings.Perm settings' → (∀ s ∈ settings, Table.contains present s.1 = true) →
      shouldDelete file key specification (.map present) =
        shouldDelete file key specification' (.map present)) ∧
    (∀ file key specification specification' present present' settings settings',
      Tree.field? specification.entries "confine" = some (.map settings) →
      Tree.field? specification'.entries "confine" = some (.map settings') →
      Widens settings settings' → Extends present present' →
      (shouldDelete file key specification (.map present)).1 = false →
      (shouldDelete file key specification' (.map present')).1 = false) ∧
    ∀ file value context, context ≠ .null →
      (applyConfinement file value context).1 =
        value.keepEntries (fun e => !(shouldDelete file e.1 e.2 context).1) ∧
      (applyConfinement file value context).2 = value.entries.filterMap (clauseWarning? file) ∧
      (applyConfinement file (applyConfinement file value context).1 context).1 =
        (applyConfinement file value context).1 := by
  refine ⟨?decides, ?order, ?more, ?sections⟩
  case decides =>
    intro file key specification context settings h
    rw [shouldDelete_clause h, keptBy_iff]
  case order =>
    intro file key specification specification' present settings settings' h h' hperm hall
    rw [shouldDelete_clause h, shouldDelete_clause h']
    exact congrArg (·, []) (excludes_perm hperm hall)
  case more =>
    intro file key specification specification' present present' settings settings' h h' hwider
      hextends hkept
    rw [shouldDelete_clause h] at hkept
    rw [shouldDelete_clause h']
    exact excludes_eq_false_iff.mpr ((excludes_eq_false_iff.mp hkept).widen hwider hextends)
  case sections =>
    intro file value context hcontext
    refine ⟨applyConfinement_eq hcontext file value, ?_, applyConfinement_again file value context⟩
    rw [applyConfinement_messages]
    unfold clauseWarnings
    split
    · exact absurd rfl hcontext
    · rfl

/-- An entry that is confined by settings. -/
def confinedTo (settings : Mapping) : Tree := .map [(.str "confine", .map settings)]

/-- An operating system or an architecture. -/
def osOrArch : Mapping := [(.str "os", .str "RedHat"), (.str "arch", .str "x86_64")]

/-- The settings of a context that has the architecture and another operating system. -/
def otherOs : Mapping := [(.str "os", .str "Debian"), (.str "arch", .str "x86_64")]

/-- The entry is kept for its architecture, also with its settings the other way round, and where
one more architecture is allowed. -/
theorem confinement_keeps_arch :
    KeptBy Tree.Same (.map otherOs) osOrArch ∧
    shouldDelete "a.yaml" (.str "c") (confinedTo osOrArch) (.map otherOs) =
      shouldDelete "a.yaml" (.str "c") (confinedTo osOrArch.reverse) (.map otherOs) ∧
    (shouldDelete "a.yaml" (.str "c") (confinedTo [(.str "os", .str "RedHat"),
      (.str "arch", .seq [.str "aarch64", .str "x86_64"])]) (.map otherOs)).1 = false ∧
    (applyConfinement "a.yaml" (.map [(.str "c", confinedTo osOrArch), (.str "d", confinedTo [])])
      (.map otherOs)).1 = .map [(.str "c", confinedTo osOrArch)] := by
  obtain ⟨hdecides, horder, hmore, hsections⟩ := confinement_keeps
  have hkept :
      (shouldDelete "a.yaml" (.str "c") (confinedTo osOrArch) (.map otherOs)).1 = false := by
    decide
  have hall : ∀ s ∈ osOrArch, Table.contains otherOs s.1 = true := by
    decide
  have hwider : Widens osOrArch [(.str "os", .str "RedHat"),
      (.str "arch", .seq [.str "aarch64", .str "x86_64"])] :=
    .cons ⟨rfl, List.Subset.refl _⟩ (.cons ⟨rfl, by simp [Tree.asList]⟩ .nil)
  have hsame : Extends otherOs otherOs := fun _ actual h => ⟨actual, h, List.Subset.refl _⟩
  have hcontext : Tree.map otherOs ≠ .null := by
    intro hnull
    cases hnull
  refine ⟨(hdecides "a.yaml" (.str "c") _ _ _ rfl).mp hkept,
    horder _ _ _ _ _ _ _ rfl rfl osOrArch.reverse_perm.symm hall,
    hmore "a.yaml" (.str "c") _ _ _ _ _ _ rfl rfl hwider hsame hkept, ?_⟩
  exact (hsections "a.yaml" _ _ hcontext).1.trans rfl

/-- A setting with a NaN for its value. -/
def nanSetting : Mapping := [(.str "x", .scalar (.float (.nan 0)))]

/-- **A NaN is equal to nothing, and is matched by itself**: the value of a context is looked for
among the allowed values, and found there though it is not equal to it. -/
theorem confinement_keeps_nan :
    (shouldDelete "a.yaml" (.str "c") (confinedTo nanSetting) (.map nanSetting)).1 = false ∧
      ¬ KeptBy (fun t value => t.equals value = true) (.map nanSetting) nanSetting := by
  refine ⟨by decide +kernel, ?_⟩
  rintro ⟨present, hpresent, before, setting, after, hsplit, -, actual, -, value, -, t, ht, hequal⟩
  -- the only allowed value is the NaN
  have hsetting : setting ∈ nanSetting := by rw [hsplit]; simp
  obtain rfl := List.mem_singleton.mp hsetting
  obtain rfl := List.mem_singleton.mp ht
  have hnan : Tree.isNaN (.scalar (.float (.nan 0))) = true := by decide +kernel
  rw [Tree.equals, hnan] at hequal
  simp at hequal

end Compliance
