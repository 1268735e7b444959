import Compliance.Confine
import Compliance.Proofs.Reach
import Mathlib.Algebra.BigOperators.Group.List.Lemmas
import Mathlib.Data.List.GetD

/-! # Contexts exercise the clauses they come from

The contexts are counted out of the confine clauses of the data, all laid over one another. So no
context lacks a setting that some clause names, and no entry is left out for want of one. Nor is an
entry left out of every context, if one of its values was not laid over and can be matched at all.

* `Tree.alike_self`: a tree of distinct keys counts as itself.
* `confinable`, `clause?`: the entries that may be confined, and their clauses.
* `contains_collectConfines`, `get?_collectConfines`: what the combined clause has under a setting.
* `exists_context_of_mem`: counting round skips no value.
* `Confine.excludes_iff`: where no setting is missing, the order of the settings does not matter.
* `expandConfines_exercise`: so the contexts exercise the clauses.
-/

namespace Compliance

namespace Tree

/-! ## Trees that count as themselves -/

mutual

/-- **A tree of distinct keys counts as itself**, NaN included. -/
theorem alike_self : ∀ t : Tree, KeysDistinct t → alike t t = true
  | .scalar s, _ => by rw [alike]; exact BEq.rfl
  | .seq items, h => by rw [alike]; exact alikeItems_self items (keysDistinct_seq.mp h)
  | .map entries, h => by
    obtain ⟨hd, hv⟩ := keysDistinct_map.mp h
    rw [alike, beq_self_eq_true, Bool.true_and]
    exact alikeEntries_self hd entries (fun _ he => he) hv

theorem alikeItems_self : ∀ items : List Tree, (∀ t ∈ items, KeysDistinct t) →
    alikeItems items items = true
  | [], _ => by rw [alikeItems]
  | t :: r, h => by
    rw [alikeItems, alike_self t (h t List.mem_cons_self), Bool.true_and]
    exact alikeItems_self r fun u hu => h u (List.mem_cons_of_mem _ hu)

theorem alikeEntries_self {whole : Mapping} (hd : Table.Distinct whole) :
    ∀ entries : List (Scalar × Tree), (∀ e ∈ entries, e ∈ whole) →
      (∀ e ∈ entries, KeysDistinct e.2) → alikeEntries entries whole = true
  | [], _, _ => by rw [alikeEntries]
  | (key, t) :: r, hin, h => by
    -- the keys are distinct, so the entry finds itself under its key
    rw [alikeEntries, Table.get?_of_mem hd (hin _ List.mem_cons_self)]
    simp only [alike_self t (h _ List.mem_cons_self), Bool.true_and]
    exact alikeEntries_self hd r (fun e he => hin e (List.mem_cons_of_mem _ he))
      fun e he => h e (List.mem_cons_of_mem _ he)

end

end Tree

open Compliance.Tree (KeysDistinct mappingAt)

/-! ## Clauses laid over one another -/

/-- The entries that may be confined, section by section. -/
def confinable (merged : Mapping) : List (Scalar × Tree) :=
  mappingAt merged "profiles" ++ mappingAt merged "ce" ++ mappingAt merged "checks"

/-- The mapping-valued confine clause of an entry. -/
def clause? (e : Scalar × Tree) : Option Mapping := Tree.mapField? e.2.entries "confine"

theorem keysDistinct_confinable {merged : Mapping} (h : KeysDistinct (.map merged))
    {e : Scalar × Tree} (he : e ∈ confinable merged) : KeysDistinct e.2 := by
  have hsection : ∀ {name}, e ∈ mappingAt merged name → KeysDistinct e.2 := fun {name} hin =>
    (Tree.keysDistinct_map.mp (h.mappingAt name)).2 e hin
  simp only [confinable, List.mem_append] at he
  rcases he with (hprofile | hce) | hcheck
  · exact hsection hprofile
  · exact hsection hce
  · exact hsection hcheck

theorem keysDistinct_clause {e : Scalar × Tree} (h : KeysDistinct e.2) {confine : Mapping}
    (hc : clause? e = some confine) : KeysDistinct (.map confine) := by
  obtain ⟨key, t⟩ := e
  cases t with
  | map entries => exact h.mapField? hc
  | scalar | seq => cases hc

theorem collectConfines_eq (merged : Mapping) :
    collectConfines (.map merged) =
      ((confinable merged).filterMap clause?).foldl Table.insertAll [] := by
  have hsection : ∀ name, (mappingAt merged name).filterMap clause? =
      sectionConfines merged name := fun _ => rfl
  simp only [collectConfines, confinable, confinedSections, Tree.entries, List.filterMap_append,
    hsection, List.flatMap_cons, List.flatMap_nil, List.append_nil, List.append_assoc]

theorem contains_foldl_insertAll (clauses : List Mapping) (t : Mapping) (k : Scalar) :
    (clauses.foldl Table.insertAll t).contains k =
      (t.contains k || clauses.any fun c => c.contains k) := by
  induction clauses generalizing t with
  | nil => simp
  | cons c r ih => simp [ih, Table.contains_insertAll, Bool.or_assoc]

theorem get?_foldl_insertAll {clauses : List Mapping} {k : Scalar}
    (h : ∀ c ∈ clauses, Table.Distinct c ∧ c.contains k = false) (t : Mapping) :
    (clauses.foldl Table.insertAll t).get? k = t.get? k := by
  induction clauses generalizing t with
  | nil => rfl
  | cons c r ih =>
    obtain ⟨hd, hfree⟩ := h c List.mem_cons_self
    have hnone : c.get? k = none := by simpa [Table.contains] using hfree
    rw [List.foldl_cons, ih (fun c hc => h c (List.mem_cons_of_mem _ hc)), Table.get?_insertAll hd,
      hnone, Option.none_or]

theorem contains_collectConfines {merged : Mapping} {e : Scalar × Tree}
    (he : e ∈ confinable merged) {confine : Mapping} (hc : clause? e = some confine)
    {setting : Scalar × Tree} (hs : setting ∈ confine) :
    (collectConfines (.map merged)).contains setting.1 = true := by
  have hown : confine.contains setting.1 = true :=
    Table.contains_iff.mpr ⟨setting, hs, BEq.rfl⟩
  rw [collectConfines_eq, contains_foldl_insertAll, Bool.or_eq_true, List.any_eq_true]
  exact .inr ⟨confine, List.mem_filterMap.mpr ⟨e, he, hc⟩, hown⟩

/-- A setting that no later clause has keeps its value in the combined clause. -/
theorem get?_collectConfines {merged : Mapping} (hd : KeysDistinct (.map merged))
    {before after : List (Scalar × Tree)} {e : Scalar × Tree}
    (hsplit : confinable merged = before ++ e :: after) {confine : Mapping}
    (hc : clause? e = some confine) {setting : Scalar × Tree} (hs : setting ∈ confine)
    (hlast : ∀ later ∈ after, ∀ c, clause? later = some c → c.contains setting.1 = false) :
    (collectConfines (.map merged)).get? setting.1 = some setting.2 := by
  have hdistinct : ∀ {e' c}, e' ∈ confinable merged → clause? e' = some c → Table.Distinct c :=
    fun he' hc' =>
      (Tree.keysDistinct_map.mp (keysDistinct_clause (keysDistinct_confinable hd he') hc')).1
  have hown : Table.Distinct confine := hdistinct (by simp [hsplit]) hc
  rw [collectConfines_eq, hsplit, List.filterMap_append, List.filterMap_cons_some hc,
    List.foldl_append, List.foldl_cons, get?_foldl_insertAll, Table.get?_insertAll hown,
    Table.get?_of_mem hown hs, Option.some_or]
  intro c hin
  obtain ⟨later, hl, hc'⟩ := List.mem_filterMap.mp hin
  exact ⟨hdistinct (by simp [hsplit, hl]) hc', hlast later hl c hc'⟩

/-! ## Contexts counted out of a clause -/

theorem mem_expandConfines {confine context : Mapping} :
    context ∈ expandConfines confine ↔
      confine ≠ [] ∧ ∃ i < contextCount confine, contextAt confine i = context := by
  unfold expandConfines
  cases confine <;> simp

theorem get?_contextAt (confine : Mapping) (i : Nat) (k : Scalar) :
    (contextAt confine i).get? k =
      (confine.get? k).map fun value => value.asList.getD (i % value.asList.length) .null := by
  induction confine with
  | nil => rfl
  | cons e r ih =>
    obtain ⟨key, value⟩ := e
    simp only [contextAt, List.map_cons, Table.get?_cons] at ih ⊢
    split
    · rfl
    · exact ih

theorem contains_of_mem_expandConfines {confine context : Mapping}
    (h : context ∈ expandConfines confine) (k : Scalar) :
    context.contains k = confine.contains k := by
  obtain ⟨-, i, -, rfl⟩ := mem_expandConfines.mp h
  simp [Table.contains, get?_contextAt]

theorem asList_pos {t : Tree} (hnull : t ≠ .null) (hempty : t ≠ .seq []) :
    0 < t.asList.length := by
  unfold Tree.asList
  split
  · exact absurd rfl hnull
  · exact List.length_pos_iff.mpr fun h => hempty (congrArg Tree.seq h)
  · exact Nat.zero_lt_one

/-- Where each setting has a value, there are at least as many contexts as values of any setting. -/
theorem length_le_contextCount {confine : Mapping} (hpos : ∀ e ∈ confine, 0 < e.2.asList.length)
    {e : Scalar × Tree} (he : e ∈ confine) : e.2.asList.length ≤ contextCount confine := by
  rw [contextCount, ← List.prod_eq_foldl_nat]
  refine Nat.le_of_dvd (List.prod_pos_iff_forall_pos_nat.mpr ?_)
    (List.dvd_prod (List.mem_map.mpr ⟨e, he, rfl⟩))
  intro n hn
  obtain ⟨e', he', rfl⟩ := List.mem_map.mp hn
  exact hpos e' he'

/-- **Every value of every setting has its context.** -/
theorem exists_context_of_mem {confine : Mapping} (hpos : ∀ e ∈ confine, 0 < e.2.asList.length)
    {k : Scalar} {allowed : Tree} (hg : confine.get? k = some allowed) {value : Tree}
    (hv : value ∈ allowed.asList) :
    ∃ context ∈ expandConfines confine, context.get? k = some value := by
  obtain ⟨key, hin, -⟩ := Table.mem_of_get? hg
  obtain ⟨i, hi, rfl⟩ := List.mem_iff_getElem.mp hv
  -- context `i` is not yet counted round, and there are enough contexts for it to be one
  have hcount : i < contextCount confine := Nat.lt_of_lt_of_le hi (length_le_contextCount hpos hin)
  refine ⟨contextAt confine i,
    mem_expandConfines.mpr ⟨List.ne_nil_of_mem hin, i, hcount, rfl⟩, ?_⟩
  rw [get?_contextAt, hg, Option.map_some, Nat.mod_eq_of_lt hi, List.getD_eq_getElem _ _ hi]

/-! ## Settings that match -/

namespace Confine

/-- A value of the context counts as an allowed value of the setting. -/
def Matches (context : Mapping) (setting : Scalar × Tree) : Prop :=
  ∃ actual, context.get? setting.1 = some actual ∧
    ∃ value ∈ actual.asList, ∃ t ∈ setting.2.asList, t.alike value = true

theorem matchesSetting_iff {actual allowed : Tree} :
    matchesSetting actual allowed = true ↔
      ∃ value ∈ actual.asList, ∃ t ∈ allowed.asList, t.alike value = true := by
  simp [matchesSetting, allows]

/-- **Where no setting is missing, an entry is excluded exactly if none matches.** -/
theorem excludes_iff {context settings : Mapping}
    (h : ∀ setting ∈ settings, context.contains setting.1 = true) :
    excludes context settings = true ↔ ∀ setting ∈ settings, ¬ Matches context setting := by
  induction settings with
  | nil => simp [excludes]
  | cons setting r ih =>
    obtain ⟨k, allowed⟩ := setting
    obtain ⟨actual, hactual⟩ := Option.isSome_iff_exists.mp (h _ List.mem_cons_self)
    have hr := ih fun e he => h e (List.mem_cons_of_mem _ he)
    have hhead : Matches context (k, allowed) ↔ matchesSetting actual allowed = true := by
      simp [Matches, matchesSetting_iff, hactual]
    rw [List.forall_mem_cons, hhead, ← hr]
    simp only [excludes, hactual]
    cases matchesSetting actual allowed <;> simp

theorem matches_self {context : Mapping} {setting : Scalar × Tree} {value : Tree}
    (hg : context.get? setting.1 = some value) (hin : value ∈ setting.2.asList)
    (hd : KeysDistinct value) (hnull : value ≠ .null) (hlist : ∀ items, value ≠ .seq items) :
    Matches context setting := by
  refine ⟨value, hg, value, ?_, value, hin, Tree.alike_self value hd⟩
  unfold Tree.asList
  split
  · exact absurd rfl hnull
  · exact absurd rfl (hlist _)
  · exact List.mem_singleton_self _

end Confine

theorem shouldDelete_of_clause {specification : Tree} {confine : Mapping}
    (h : Tree.field? specification.entries "confine" = some (.map confine)) (file : String)
    (key : Scalar) (context : Mapping) :
    shouldDelete file key specification (.map context) =
      (Confine.excludes context confine, []) := by
  unfold shouldDelete
  rw [h]
  rfl

/-! ## Coverage -/

/-- **The contexts have every setting of every clause**, so an entry is left out exactly if none of
its settings matches, in whatever order they stand. -/
theorem expandConfines_covers {merged context : Mapping}
    (hcontext : context ∈ expandConfines (collectConfines (.map merged))) {e : Scalar × Tree}
    (he : e ∈ confinable merged) {confine : Mapping} (hc : clause? e = some confine) :
    (∀ setting ∈ confine, context.contains setting.1 = true) ∧
    ∀ settings : Mapping, settings.Perm confine → ∀ file key specification,
      Tree.field? specification.entries "confine" = some (.map settings) →
      ((shouldDelete file key specification (.map context)).1 = true ↔
        ∀ setting ∈ confine, ¬ Confine.Matches context setting) := by
  have hall : ∀ setting ∈ confine, context.contains setting.1 = true := fun setting hs => by
    rw [contains_of_mem_expandConfines hcontext]
    exact contains_collectConfines he hc hs
  refine ⟨hall, fun settings hperm file key specification hspec => ?_⟩
  rw [shouldDelete_of_clause hspec,
    Confine.excludes_iff fun setting hs => hall setting (hperm.mem_iff.mp hs)]
  exact forall_congr' fun setting => by rw [hperm.mem_iff]

/-- **An entry with a value that was not laid over is kept by some context**, if the value is
neither null nor a list, and every collected setting has values to count round. -/
theorem exists_context_keeping {merged : Mapping} (hd : KeysDistinct (.map merged))
    (hcounted : ∀ setting ∈ collectConfines (.map merged),
      setting.2 ≠ .null ∧ setting.2 ≠ .seq [])
    {before after : List (Scalar × Tree)} {e : Scalar × Tree}
    (hsplit : confinable merged = before ++ e :: after) {confine : Mapping}
    (hc : clause? e = some confine) {setting : Scalar × Tree} (hs : setting ∈ confine)
    (hlast : ∀ later ∈ after, ∀ c, clause? later = some c → c.contains setting.1 = false)
    {value : Tree} (hv : value ∈ setting.2.asList) (hnull : value ≠ .null)
    (hlist : ∀ items, value ≠ .seq items) :
    ∃ context ∈ expandConfines (collectConfines (.map merged)),
      ∀ file, shouldDelete file e.1 e.2 (.map context) = (false, []) := by
  have he : e ∈ confinable merged := by simp [hsplit]
  have hpos : ∀ s ∈ collectConfines (.map merged), 0 < s.2.asList.length := fun s hin =>
    asList_pos (hcounted s hin).1 (hcounted s hin).2
  obtain ⟨context, hcontext, hvalue⟩ :=
    exists_context_of_mem hpos (get?_collectConfines hd hsplit hc hs hlast) hv
  -- the context has the value itself, so nothing but its counting as itself is left
  have hclause : KeysDistinct (.map confine) :=
    keysDistinct_clause (keysDistinct_confinable hd he) hc
  have hdistinct : KeysDistinct value :=
    ((Tree.keysDistinct_map.mp hclause).2 setting hs).asList hv
  have hmatch : Confine.Matches context setting :=
    Confine.matches_self hvalue hv hdistinct hnull hlist
  have hkept : Confine.excludes context confine = false := by
    have hnone := Confine.excludes_iff fun s hin => by
      rw [contains_of_mem_expandConfines hcontext]
      exact contains_collectConfines he hc hin
    exact Bool.eq_false_iff.mpr fun hx => hnone.mp hx setting hs hmatch
  exact ⟨context, hcontext, fun file => by
    rw [shouldDelete_of_clause (Tree.mapField?_eq_some.mp hc), hkept]⟩

/-- **The contexts exercise the clauses that they come from.** -/
theorem expandConfines_exercise (merged : Mapping) (hd : KeysDistinct (.map merged)) :
    (∀ context ∈ expandConfines (collectConfines (.map merged)),
      ∀ e ∈ confinable merged, ∀ confine, clause? e = some confine →
        (∀ setting ∈ confine, context.contains setting.1 = true) ∧
        ∀ settings : Mapping, settings.Perm confine → ∀ file key specification,
          Tree.field? specification.entries "confine" = some (.map settings) →
          ((shouldDelete file key specification (.map context)).1 = true ↔
            ∀ setting ∈ confine, ¬ Confine.Matches context setting)) ∧
    ((∀ setting ∈ collectConfines (.map merged), setting.2 ≠ .null ∧ setting.2 ≠ .seq []) →
      ∀ before e after confine, confinable merged = before ++ e :: after →
        clause? e = some confine → ∀ setting ∈ confine,
        (∀ later ∈ after, ∀ c, clause? later = some c → c.contains setting.1 = false) →
        ∀ value ∈ setting.2.asList, value ≠ .null → (∀ items, value ≠ .seq items) →
        ∃ context ∈ expandConfines (collectConfines (.map merged)),
          ∀ file, shouldDelete file e.1 e.2 (.map context) = (false, [])) :=
  ⟨fun _ hcontext _ he _ hc => expandConfines_covers hcontext he hc,
    fun hcounted _ _ _ _ hsplit hc _ hs hlast _ hv hnull hlist =>
      exists_context_keeping hd hcounted hsplit hc hs hlast hv hnull hlist⟩

/-- A release, under an operating system that a later entry lays over. -/
def overlaid : Mapping := [
  (.str "profiles", .map [(.str "base", .map [(.str "confine", .map [
    (.str "os", .str "Debian"), (.str "release", .seq [.str "7", .int 8])])])]),
  (.str "checks", .map [(.str "grub", .map [(.str "confine", .map [
    (.str "os", .seq [.str "RedHat", .str "CentOS"])])])])]

/-- The clause of the first entry. -/
def overlaidClause : Mapping :=
  [(.str "os", .str "Debian"), (.str "release", .seq [.str "7", .int 8])]

/-- The profile is kept for its release, and no context lacks its operating system. -/
theorem expandConfines_exercise_overlaid :
    KeysDistinct (.map overlaid) ∧
    (∀ setting ∈ collectConfines (.map overlaid), setting.2 ≠ .null ∧ setting.2 ≠ .seq []) ∧
    (∀ context ∈ expandConfines (collectConfines (.map overlaid)),
      ∀ setting ∈ overlaidClause, context.contains setting.1 = true) ∧
    ∃ context ∈ expandConfines (collectConfines (.map overlaid)),
      ∀ file, shouldDelete file (.str "base") (.map [(.str "confine", .map overlaidClause)])
        (.map context) = (false, []) := by
  have hd : KeysDistinct (.map overlaid) := by
    have hsections : (Scalar.str "profiles" == .str "checks") = false := by decide
    have hsettings : (Scalar.str "os" == .str "release") = false := by decide
    simp [overlaid, Tree.keysDistinct_map, Tree.keysDistinct_seq, Tree.keysDistinct_scalar,
      Table.Distinct, hsections, hsettings]
  have hcollected : collectConfines (.map overlaid) =
      [(.str "os", .seq [.str "RedHat", .str "CentOS"]),
        (.str "release", .seq [.str "7", .int 8])] := rfl
  have hcounted : ∀ setting ∈ collectConfines (.map overlaid),
      setting.2 ≠ .null ∧ setting.2 ≠ .seq [] := by
    rw [hcollected]
    simp
  obtain ⟨hcovers, hkept⟩ := expandConfines_exercise overlaid hd
  refine ⟨hd, hcounted, fun context hcontext => ?_, ?_⟩
  · exact (hcovers context hcontext _ List.mem_cons_self overlaidClause rfl).1
  · exact hkept hcounted [] _ _ overlaidClause rfl rfl (.str "release", .seq [.str "7", .int 8])
      (by simp [overlaidClause]) (by decide) (.int 8) (by simp [Tree.asList]) (by simp) (by simp)

end Compliance
