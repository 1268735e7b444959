import Compliance.Hiera.CheckMap
import Compliance.Hiera.Resolve
import Compliance.Proofs.Reach

/-! # What the index of the checks holds

The index is built in one walk over the checks, and each usable check adds to three tables. Here
each table is read off the list of usable checks:

* `of?_eq_ok`: what makes a check usable.
* `buildCheckMap_eq`: the index is a fold of `CheckMap.add` over the usable checks in order, and the
  reports are about the others.
* `get?_controls`: under a control, each check once for every time it reaches the control.
* `get?_ces`: under a CE, each check once for every time it names the CE.
* `get?_checks`: under a name, the check of that name; names have to be distinct.
* `mem_checks`, `mem_controls`, `mem_ces`: what is listed under a key at all.
* `mem_profileChecks`: a profile pulls in usable checks only.
-/

namespace Compliance

open Compliance.Tree (mappingAt)

/-- The usable checks among named checks, in order. -/
def usableChecks (checkType : String) (checks : Mapping) : List (Scalar × UsableCheck) :=
  checks.filterMap fun e => (UsableCheck.of? checkType e.2).toOption.map fun check => (e.1, check)

/-- The warning with which the index skips a check. -/
def skipWarning (context : Tree) (check : Scalar) (reason : Unusable) : Message :=
  .warning ("check " ++ check.text ++ " " ++ describeContext context ++ ": " ++ reason.message)

/-- The reports about checks that are not usable, in order. -/
def unusableReports (checkType label : String) (checks : Mapping) : List Message :=
  checks.flatMap fun e =>
    match UsableCheck.of? checkType e.2 with
    | .ok _ => []
    | .error reason =>
      [.warning ("check " ++ e.1.text ++ " " ++ label ++ ": " ++ reason.message)]

/-! ## Usable checks -/

def isOfType (checkType : String) (body : Mapping) : Bool :=
  (Tree.field? body "type").any (Tree.equals · (.str checkType))

theorem isOfType_eq (checkType : String) (body : Mapping) : isOfType checkType body =
    ((Tree.field? body "type").map (Tree.equals · (.str checkType))).getD false := by
  unfold isOfType
  cases Tree.field? body "type" <;> rfl

/-- **What makes a check usable**, and what it then holds. -/
theorem of?_eq_ok {checkType : String} {t : Tree} {check : UsableCheck} :
    UsableCheck.of? checkType t = .ok check ↔
      t = .map check.body ∧ isOfType checkType check.body = true ∧
        ∃ settings, Tree.mapField? check.body "settings" = some settings ∧
          Tree.field? settings "parameter" = some (.str check.parameter) ∧
          Tree.field? settings "value" = some check.value := by
  constructor
  · intro h
    unfold UsableCheck.of? at h
    split at h
    · split at h
      · rename_i body hbody
        split at h
        · cases h
        · rename_i settings hs
          split at h
          · rename_i parameter hp
            split at h
            · rename_i value hv
              obtain rfl := Except.ok.inj h
              exact ⟨rfl, (isOfType_eq checkType body).trans hbody, settings, hs, hp, hv⟩
            · cases h
          · cases h
      · cases h
    · cases h
  · rintro ⟨rfl, hbody, settings, hs, hp, hv⟩
    rw [isOfType_eq] at hbody
    simp only [UsableCheck.of?, hbody, if_true, hs, hp, hv]

/-- The check is of the type, and its settings name a parameter but have no value for it. -/
def Valueless (checkType parameter : String) (t : Tree) : Prop :=
  ∃ body settings, t = .map body ∧ isOfType checkType body = true ∧
    Tree.mapField? body "settings" = some settings ∧
    Tree.field? settings "parameter" = some (.str parameter) ∧
    Tree.field? settings "value" = none

/-- **A check is skipped for a value** exactly where it names a parameter and has none. -/
theorem of?_eq_noValue {checkType parameter : String} {t : Tree} :
    UsableCheck.of? checkType t = .error (.noValue parameter) ↔
      Valueless checkType parameter t := by
  constructor
  · intro h
    unfold UsableCheck.of? at h
    split at h
    case h_2 => cases h
    rename_i body
    split at h
    case isFalse => cases h
    rename_i htype
    split at h
    case h_1 => cases h
    rename_i settings hs
    split at h
    case h_2 => cases h
    rename_i name hp
    split at h
    case h_1 => cases h
    rename_i hv
    obtain rfl := Unusable.noValue.inj (Except.error.inj h)
    exact ⟨body, settings, rfl, (isOfType_eq checkType body).trans htype, hs, hp, hv⟩
  · rintro ⟨body, settings, rfl, htype, hs, hp, hv⟩
    rw [isOfType_eq] at htype
    simp only [UsableCheck.of?, htype, if_true, hs, hp, hv]

/-! ## The walk over the checks -/

/-- The step of `buildCheckMap`. -/
def indexStep (checkType label : String) (ces : Mapping) (state : CheckMap × List Message)
    (e : Scalar × Tree) : CheckMap × List Message :=
  let added := state.1.addOrReport checkType label ces e.1 e.2
  (added.1, state.2 ++ added.2)

theorem indexStep_ok {checkType label : String} {ces : Mapping} {state : CheckMap × List Message}
    {e : Scalar × Tree} {check : UsableCheck} (h : UsableCheck.of? checkType e.2 = .ok check) :
    indexStep checkType label ces state e = (state.1.add ces e.1 check, state.2) := by
  simp [indexStep, CheckMap.addOrReport, h]

theorem indexStep_error {checkType label : String} {ces : Mapping}
    {state : CheckMap × List Message} {e : Scalar × Tree} {reason : Unusable}
    (h : UsableCheck.of? checkType e.2 = .error reason) :
    indexStep checkType label ces state e = (state.1, state.2 ++
      [.warning ("check " ++ e.1.text ++ " " ++ label ++ ": " ++ reason.message)]) := by
  simp [indexStep, CheckMap.addOrReport, h]

theorem foldl_indexStep (checkType label : String) (ces : Mapping) :
    ∀ (checks : Mapping) (state : CheckMap × List Message),
    checks.foldl (indexStep checkType label ces) state =
      ((usableChecks checkType checks).foldl (fun i e => i.add ces e.1 e.2) state.1,
        state.2 ++ unusableReports checkType label checks)
  | [], state => by simp [usableChecks, unusableReports]
  | e :: checks, state => by
    rw [List.foldl_cons, foldl_indexStep checkType label ces checks]
    cases hu : UsableCheck.of? checkType e.2 with
    | error reason =>
      rw [indexStep_error hu]
      simp [usableChecks, unusableReports, hu, Except.toOption]
    | ok check =>
      rw [indexStep_ok hu]
      simp [usableChecks, unusableReports, hu, Except.toOption]

/-- **The index and the reports** are read off the usable checks and the others. -/
theorem buildCheckMap_eq (checkType : String) (merged : Mapping) (context : Tree) :
    buildCheckMap checkType merged context =
      ((usableChecks checkType (mappingAt merged "checks")).foldl
        (fun i e => i.add (mappingAt merged "ce") e.1 e.2) {},
        unusableReports checkType (describeContext context) (mappingAt merged "checks")) := by
  have h := foldl_indexStep checkType (describeContext context) (mappingAt merged "ce")
    (mappingAt merged "checks") ({}, [])
  rw [List.nil_append] at h
  exact h

/-! ## One table -/

theorem get?_listUnder (index : Table Scalar (List UsableCheck)) (k l : Scalar)
    (check : UsableCheck) :
    ((listUnder index k check).get? l).getD [] =
      (index.get? l).getD [] ++ if k == l then [check] else [] := by
  unfold listUnder
  rw [Table.get?_insert]
  by_cases h : (k == l) = true
  · simp [h, Table.get?_congr h]
  · simp [h]

/-- Listed under several keys, a check is found under each as often as the key is there. -/
theorem get?_foldl_listUnder (check : UsableCheck) (l : Scalar) :
    ∀ (keys : List Scalar) (index : Table Scalar (List UsableCheck)),
    ((keys.foldl (fun t k => listUnder t k check) index).get? l).getD [] =
      (index.get? l).getD [] ++ List.replicate (keys.countP (· == l)) check
  | [], _ => by simp
  | k :: keys, index => by
    rw [List.foldl_cons, get?_foldl_listUnder check l keys, get?_listUnder, List.countP_cons]
    by_cases h : (k == l) = true
    · simp [h, List.replicate_succ]
    · simp [h]

/-! ## The three tables -/

section
variable (ces : Mapping)

def addAll (index : CheckMap) (checks : List (Scalar × UsableCheck)) : CheckMap :=
  checks.foldl (fun i e => i.add ces e.1 e.2) index

theorem get?_controls (c : Scalar) : ∀ (checks : List (Scalar × UsableCheck)) (index : CheckMap),
    ((addAll ces index checks).controls.get? c).getD [] =
      (index.controls.get? c).getD [] ++ checks.flatMap fun e =>
        List.replicate ((controlsOn e.2.body ++
          (knownCes ces e.2.body).flatMap (ceControlsOn ces)).countP (· == c)) e.2
  | [], _ => by simp [addAll]
  | e :: checks, index => by
    rw [addAll, List.foldl_cons, ← addAll, get?_controls c checks]
    simp only [CheckMap.add, get?_foldl_listUnder, List.flatMap_cons, List.append_assoc]

theorem get?_ces (c : Scalar) : ∀ (checks : List (Scalar × UsableCheck)) (index : CheckMap),
    ((addAll ces index checks).ces.get? c).getD [] =
      (index.ces.get? c).getD [] ++ checks.flatMap fun e =>
        List.replicate (((knownCes ces e.2.body).map Scalar.str).countP (· == c)) e.2
  | [], _ => by simp [addAll]
  | e :: checks, index => by
    rw [addAll, List.foldl_cons, ← addAll, get?_ces c checks]
    simp only [CheckMap.add]
    rw [← List.foldl_map (f := Scalar.str) (g := fun t k => listUnder t k e.2),
      get?_foldl_listUnder]
    simp only [List.flatMap_cons, List.append_assoc]

theorem get?_checks (n : Scalar) : ∀ (checks : Table Scalar UsableCheck) (index : CheckMap),
    checks.Distinct →
    (addAll ces index checks).checks.get? n =
      ((Table.get? checks n).map fun check => [check]).or (index.checks.get? n)
  | [], _, _ => by simp [addAll, Table.get?]
  | e :: checks, index, hd => by
    obtain ⟨hhead, htail⟩ := List.pairwise_cons.mp hd
    rw [addAll, List.foldl_cons, ← addAll, get?_checks n checks _ htail, Table.get?_cons]
    simp only [CheckMap.add, Table.get?_insert]
    by_cases h : (e.1 == n) = true
    · -- the name of the first check is the name of no later one
      have hnone : Table.get? checks n = none := Table.get?_eq_none_of_beq hhead h
      simp [h, hnone]
    · simp [h]

end

/-! ## What is listed -/

section
variable {ces : Mapping} {checks : Table Scalar UsableCheck} {k : Scalar} {check : UsableCheck}

theorem mem_checks (hd : checks.Distinct) :
    check ∈ ((addAll ces {} checks).checks.get? k).getD [] ↔ checks.get? k = some check := by
  have hnone : Table.get? (CheckMap.checks {}) k = none := rfl
  rw [get?_checks ces k checks {} hd, hnone, Option.or_none]
  cases checks.get? k with
  | none => simp
  | some c => simp [eq_comm]

theorem mem_flatMap_replicate (keys : Mapping → List Scalar) :
    (check ∈ checks.flatMap fun e => List.replicate ((keys e.2.body).countP (· == k)) e.2) ↔
      ∃ e ∈ checks, e.2 = check ∧ ∃ key ∈ keys e.2.body, (key == k) = true := by
  rw [List.mem_flatMap]
  refine exists_congr fun e => and_congr_right fun _ => ?_
  rw [List.mem_replicate, ← Nat.pos_iff_ne_zero, List.countP_pos_iff, and_comm, eq_comm]

theorem mem_controls :
    check ∈ ((addAll ces {} checks).controls.get? k).getD [] ↔ ∃ e ∈ checks, e.2 = check ∧
      ∃ control ∈ controlsOn e.2.body ++ (knownCes ces e.2.body).flatMap (ceControlsOn ces),
        (control == k) = true := by
  rw [get?_controls]
  exact mem_flatMap_replicate fun body =>
    controlsOn body ++ (knownCes ces body).flatMap (ceControlsOn ces)

theorem mem_ces :
    check ∈ ((addAll ces {} checks).ces.get? k).getD [] ↔ ∃ e ∈ checks, e.2 = check ∧
      ∃ name ∈ (knownCes ces e.2.body).map Scalar.str, (name == k) = true := by
  rw [get?_ces]
  exact mem_flatMap_replicate fun body => (knownCes ces body).map Scalar.str

theorem mem_addAll (hd : checks.Distinct)
    (h : check ∈ ((addAll ces {} checks).checks.get? k).getD [] ∨
      check ∈ ((addAll ces {} checks).controls.get? k).getD [] ∨
      check ∈ ((addAll ces {} checks).ces.get? k).getD []) :
    ∃ name, (name, check) ∈ checks := by
  rcases h with h | h | h
  · obtain ⟨name, hm, -⟩ := Table.mem_of_get? ((mem_checks hd).mp h)
    exact ⟨name, hm⟩
  · obtain ⟨e, he, rfl, -⟩ := mem_controls.mp h
    exact ⟨e.1, he⟩
  · obtain ⟨e, he, rfl, -⟩ := mem_ces.mp h
    exact ⟨e.1, he⟩

end

/-! ## The checks of a profile -/

theorem mem_referenced {body : Mapping} {field : String} {index : Table Scalar (List UsableCheck)}
    {check : UsableCheck} :
    check ∈ referenced body field index ↔
      ∃ e ∈ mappingAt body field, e.2.isSet = true ∧ check ∈ (index.get? e.1).getD [] := by
  change check ∈ (mappingAt body field).flatMap _ ↔ _
  rw [List.mem_flatMap]
  refine exists_congr fun e => and_congr_right fun _ => ?_
  dsimp only
  split
  · rename_i hset
    simp [hset]
  · rename_i hset
    simp [hset]

theorem distinct_usableChecks {checks : Mapping} (hd : Table.Distinct checks)
    (checkType : String) : Table.Distinct (usableChecks checkType checks) := by
  refine List.Pairwise.filterMap _ (fun a b hab x hx y hy => ?_) hd
  obtain ⟨c, -, rfl⟩ := Option.map_eq_some_iff.mp hx
  obtain ⟨c', -, rfl⟩ := Option.map_eq_some_iff.mp hy
  exact hab

theorem mem_usableChecks {checkType : String} {checks : Mapping} {name : Scalar}
    {check : UsableCheck} :
    (name, check) ∈ usableChecks checkType checks ↔
      ∃ t, (name, t) ∈ checks ∧ UsableCheck.of? checkType t = .ok check := by
  unfold usableChecks
  rw [List.mem_filterMap]
  constructor
  · rintro ⟨e, he, hc⟩
    obtain ⟨c, hc, heq⟩ := Option.map_eq_some_iff.mp hc
    obtain ⟨rfl, rfl⟩ := Prod.mk.inj heq
    refine ⟨e.2, he, ?_⟩
    cases hu : UsableCheck.of? checkType e.2 with
    | error _ => rw [hu] at hc; cases hc
    | ok _ => rw [hu] at hc; cases hc; rfl
  · rintro ⟨t, ht, hu⟩
    exact ⟨(name, t), ht, by simp [hu, Except.toOption]⟩

/-- **A profile pulls in usable checks only.** -/
theorem mem_profileChecks {checkType : String} {merged : Mapping} {context : Tree}
    {profile : Scalar} {check : UsableCheck} (hd : Table.Distinct (mappingAt merged "checks"))
    (h : check ∈ profileChecks merged (buildCheckMap checkType merged context).1 profile) :
    ∃ name t, (name, t) ∈ mappingAt merged "checks" ∧ UsableCheck.of? checkType t = .ok check := by
  have href : ∀ {body : Mapping} {field : String} {index : Table Scalar (List UsableCheck)},
      check ∈ referenced body field index → ∃ k, check ∈ (index.get? k).getD [] := fun hr => by
    obtain ⟨e, -, -, he⟩ := mem_referenced.mp hr
    exact ⟨e.1, he⟩
  rw [buildCheckMap_eq] at h
  unfold profileChecks at h
  dsimp only at h
  have hmem : ∃ name, (name, check) ∈ usableChecks checkType (mappingAt merged "checks") := by
    rcases List.mem_append.mp h with h | h
    · rcases List.mem_append.mp h with h | h
      · obtain ⟨k, hk⟩ := href h
        exact mem_addAll (distinct_usableChecks hd checkType) (.inl hk)
      · obtain ⟨k, hk⟩ := href h
        exact mem_addAll (distinct_usableChecks hd checkType) (.inr (.inl hk))
    · obtain ⟨k, hk⟩ := href h
      exact mem_addAll (distinct_usableChecks hd checkType) (.inr (.inr hk))
  obtain ⟨name, hm⟩ := hmem
  obtain ⟨t, ht, hu⟩ := mem_usableChecks.mp hm
  exact ⟨name, t, ht, hu⟩

end Compliance
