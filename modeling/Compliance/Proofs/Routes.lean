import Compliance.Proofs.CheckIndex
import Compliance.Proofs.ConfinedView
import Mathlib.Data.List.Basic

/-! # The routes from a profile to its checks

A profile reaches a check by the check's name, by a control that the check or one of its CEs turns
on, and by a CE that the check names. The checks of a profile are, route by route and without any
index, the bodies that are reached, each as often as it is reached.

* `routedBodies`: the bodies of a profile's checks read off the merged data.
* `countP_controlsOn`, `countP_ceControls`, `countP_knownCes`: how often a check is listed under a
  key is how often the key is reached from its body.
* `profileChecks_bodies`: the index answers `routedBodies`.
-/

namespace Compliance

open Compliance.Tree (mappingAt)

/-! ## The bodies reached -/

/-- The entry under a key counts as on. -/
def turnsOn (m : Mapping) (key : Scalar) : Bool := (Table.get? m key).any Tree.isSet

/-- The keys of a mapping that count as on, in order. -/
def keysOn (m : Mapping) : List Scalar := (m.filter (·.2.isSet)).map (·.1)

/-- The body is of the wanted type, and its settings name a parameter and hold a value. -/
def canSet (checkType : String) (body : Mapping) : Bool :=
  isOfType checkType body &&
    (Tree.mapField? body "settings").any fun settings =>
      ((Tree.field? settings "parameter").bind Tree.asText?).isSome &&
        (Tree.field? settings "value").isSome

/-- The body of a check that can set a parameter. -/
def usableBody? (checkType : String) : Tree → Option Mapping
  | .map body => if canSet checkType body then some body else none
  | _ => none

def usableBodies (checkType : String) (merged : Mapping) : List Mapping :=
  (mappingAt merged "checks").filterMap fun e => usableBody? checkType e.2

/-- The items of the list `ces` of a body. -/
def ceItems (body : Mapping) : List Tree :=
  match Tree.field? body "ces" with
  | some (.seq items) => items
  | _ => []

/-- The item is a text that counts as the key. -/
def names (key : Scalar) (item : Tree) : Bool := item.asText?.any fun name => Scalar.str name == key

/-- The item is a text that names a CE which turns the control on. -/
def namesCeOf (ces : Mapping) (control : Scalar) (item : Tree) : Bool :=
  (item.asText?.bind (Tree.field? ces)).any fun ce =>
    turnsOn (mappingAt ce.entries "controls") control

/-- The body of the usable check of a name. -/
def bodiesByName (checkType : String) (merged : Mapping) (name : Scalar) : List Mapping :=
  ((Table.get? (mappingAt merged "checks") name).bind (usableBody? checkType)).toList

/-- The bodies that reach a control: once by their own controls, and once for each place of their
CE list where a CE of the merged data turns the control on. -/
def bodiesByControl (checkType : String) (merged : Mapping) (control : Scalar) : List Mapping :=
  (usableBodies checkType merged).flatMap fun body =>
    List.replicate ((turnsOn (mappingAt body "controls") control).toNat +
      (ceItems body).countP (namesCeOf (mappingAt merged "ce") control)) body

/-- The bodies that name a CE of the merged data, once for each place of their CE list where it
stands. -/
def bodiesByCe (checkType : String) (merged : Mapping) (ce : Scalar) : List Mapping :=
  if Table.contains (mappingAt merged "ce") ce then
    (usableBodies checkType merged).flatMap fun body =>
      List.replicate ((ceItems body).countP (names ce)) body
  else []

/-- The body of a profile, empty for one that is not there or no mapping. -/
def profileMapping (merged : Mapping) (profile : Scalar) : Mapping :=
  match Table.get? (mappingAt merged "profiles") profile with
  | some (.map body) => body
  | _ => []

/-- The bodies that a profile reaches, by name, by control and by CE. -/
def routedBodies (checkType : String) (merged : Mapping) (profile : Scalar) : List Mapping :=
  let body := profileMapping merged profile
  (keysOn (mappingAt body "checks")).flatMap (bodiesByName checkType merged) ++
    (keysOn (mappingAt body "controls")).flatMap (bodiesByControl checkType merged) ++
    (keysOn (mappingAt body "ces")).flatMap (bodiesByCe checkType merged)

/-! ## Usable checks and their bodies -/

theorem canSet_iff {checkType : String} {body : Mapping} :
    canSet checkType body = true ↔
      ∃ check, UsableCheck.of? checkType (.map body) = .ok check ∧ check.body = body := by
  constructor
  · intro h
    simp only [canSet, Bool.and_eq_true, Option.any_eq_true] at h
    obtain ⟨htype, settings, hs, hp, hv⟩ := h
    obtain ⟨parameter, hp⟩ := Option.isSome_iff_exists.mp hp
    obtain ⟨t, hp, ht⟩ := Option.bind_eq_some_iff.mp hp
    obtain ⟨value, hv⟩ := Option.isSome_iff_exists.mp hv
    have hstr : t = .str parameter := by
      unfold Tree.asText? at ht
      split at ht
      · rw [Option.some.inj ht]
      · cases ht
    exact ⟨⟨body, parameter, value⟩, of?_eq_ok.mpr ⟨rfl, htype, settings, hs, hstr ▸ hp, hv⟩, rfl⟩
  · rintro ⟨check, hu, rfl⟩
    obtain ⟨-, htype, settings, hs, hp, hv⟩ := of?_eq_ok.mp hu
    simp [canSet, htype, hs, hp, hv, Tree.asText?]

theorem of?_body (checkType : String) (t : Tree) :
    (UsableCheck.of? checkType t).toOption.map UsableCheck.body = usableBody? checkType t := by
  cases hu : UsableCheck.of? checkType t with
  | ok check =>
    obtain ⟨rfl, -⟩ := of?_eq_ok.mp hu
    have hc : canSet checkType check.body = true := canSet_iff.mpr ⟨check, hu, rfl⟩
    simp [usableBody?, hc, Except.toOption]
  | error reason =>
    cases t with
    | map body =>
      have hc : ¬ canSet checkType body = true := fun h => by
        obtain ⟨check, hok, -⟩ := canSet_iff.mp h
        rw [hu] at hok
        cases hok
      simp [usableBody?, hc, Except.toOption]
    | _ => rfl

theorem map_body_usableChecks (checkType : String) (checks : Mapping) :
    (usableChecks checkType checks).map (·.2.body) =
      checks.filterMap fun e => usableBody? checkType e.2 := by
  rw [usableChecks, List.map_filterMap]
  congr 1
  funext e
  rw [← of?_body, Option.map_map]
  rfl

/-- What is listed once per check and hit is, body by body, listed once per hit. -/
theorem map_body_flatMap (checkType : String) (checks : Mapping) (hits : Mapping → Nat) :
    ((usableChecks checkType checks).flatMap fun e =>
        List.replicate (hits e.2.body) e.2).map UsableCheck.body =
      (checks.filterMap fun e => usableBody? checkType e.2).flatMap fun body =>
        List.replicate (hits body) body := by
  rw [← map_body_usableChecks, List.flatMap_map, List.map_flatMap]
  simp only [List.map_replicate]

/-! ## Counting the ways to a key -/

theorem countP_controlsOn {body : Mapping}
    (hd : Table.Distinct (mappingAt body "controls")) (control : Scalar) :
    (controlsOn body).countP (· == control) =
      (turnsOn (mappingAt body "controls") control).toNat := by
  change ((mappingAt body "controls").filterMap fun e =>
    if e.2.isSet then some e.1 else none).countP _ = _
  generalize mappingAt body "controls" = controls at hd ⊢
  induction controls with
  | nil => rfl
  | cons e r ih =>
    obtain ⟨hhead, htail⟩ := List.pairwise_cons.mp hd
    have ih := ih htail
    unfold turnsOn at ih ⊢
    rw [Table.get?_cons, List.filterMap_cons]
    by_cases hk : (e.1 == control) = true
    · -- no later key counts as the control
      have hnone : Table.get? r control = none := Table.get?_eq_none_of_beq hhead hk
      rw [hnone] at ih
      by_cases hset : e.2.isSet = true
      · simp [hset, hk, ih]
      · simp [hset, hk, ih]
    · by_cases hset : e.2.isSet = true
      · simp [hset, hk, ih]
      · simp [hset, hk, ih]

/-- The CE that an item names, if it is there. -/
def knownCe? (ces : Mapping) (item : Tree) : Option String :=
  item.asText?.filter fun name => (Tree.field? ces name).isSome

theorem knownCe?_none {ces : Mapping} {t : Tree} (h : t.asText? = none) :
    knownCe? ces t = none := by
  rw [knownCe?, h, Option.filter_none]

theorem knownCe?_some {ces : Mapping} {t : Tree} {name : String} (h : t.asText? = some name) :
    knownCe? ces t = if (Tree.field? ces name).isSome then some name else none := by
  rw [knownCe?, h, Option.filter_some]

theorem knownCes_eq (ces body : Mapping) :
    knownCes ces body = (ceItems body).filterMap (knownCe? ces) := by
  unfold knownCes ceItems
  cases Tree.field? body "ces" with
  | none => rfl
  | some t =>
    cases t with
    | seq items =>
      refine List.filterMap_congr fun item _ => ?_
      split
      · exact (knownCe?_some rfl).symm
      · rename_i hstr
        refine (knownCe?_none ?_).symm
        unfold Tree.asText?
        split
        · exact absurd rfl (hstr _)
        · rfl
    | _ => rfl

theorem countP_ceControlsOn {ces : Mapping}
    (hd : Tree.Throughout Tree.DistinctNode (.map ces)) (control : Scalar) (name : String) :
    (ceControlsOn ces name).countP (· == control) =
      ((Tree.field? ces name).any fun ce =>
        turnsOn (mappingAt ce.entries "controls") control).toNat := by
  unfold ceControlsOn
  cases hf : Tree.field? ces name with
  | none =>
    exact countP_controlsOn (Tree.distinct_mappingAt Tree.distinct_empty "controls").here control
  | some ce =>
    have hce : Tree.Throughout Tree.DistinctNode (.map ce.entries) :=
      Tree.distinct_entries (hd.get? hf)
    exact countP_controlsOn (Tree.distinct_mappingAt hce "controls").here control

/-- Items reach a control as often as they name a CE that turns it on. -/
theorem countP_ceControls {ces : Mapping} (hd : Tree.Throughout Tree.DistinctNode (.map ces))
    (control : Scalar) (items : List Tree) :
    ((items.filterMap (knownCe? ces)).flatMap (ceControlsOn ces)).countP (· == control) =
      items.countP (namesCeOf ces control) := by
  induction items with
  | nil => rfl
  | cons t items ih =>
    rw [List.filterMap_cons, List.countP_cons]
    cases ht : t.asText? with
    | none => simp [knownCe?_none ht, namesCeOf, ht, ih]
    | some name =>
      have hone := countP_ceControlsOn hd control name
      rw [knownCe?_some ht]
      cases hf : Tree.field? ces name with
      | none => simp [namesCeOf, ht, hf, ih]
      | some ce =>
        rw [hf] at hone
        simp only [namesCeOf, ht, hf, Option.isSome_some, if_true, List.flatMap_cons,
          List.countP_append, hone, ih, Option.bind_some, Option.any_some]
        cases turnsOn (mappingAt ce.entries "controls") control <;> simp [Nat.add_comm]

/-- A CE that is there is listed as often as the items name it, one that is not never. -/
theorem countP_knownCes (ces : Mapping) (ce : Scalar) (items : List Tree) :
    ((items.filterMap (knownCe? ces)).map Scalar.str).countP (· == ce) =
      if Table.contains ces ce then items.countP (names ce) else 0 := by
  induction items with
  | nil => simp
  | cons t items ih =>
    rw [List.filterMap_cons, List.countP_cons]
    cases ht : t.asText? with
    | none => simp [knownCe?_none ht, names, ht, ih]
    | some name =>
      rw [knownCe?_some ht]
      by_cases hn : (Scalar.str name == ce) = true
      · -- the item is there exactly when the CE is, for they count as one key
        have hc : (Tree.field? ces name).isSome = Table.contains ces ce := by
          rw [Tree.field?, Table.get?_congr hn, Table.contains]
        cases hces : Table.contains ces ce <;> rw [hces] at hc ih <;>
          simp [names, ht, hn, hc, ih]
      · cases hf : (Tree.field? ces name).isSome <;> simp [names, ht, hn, ih]

/-! ## The index answers the routes -/

theorem map_body_ces (checkType : String) (merged : Mapping) (context : Tree) (ce : Scalar) :
    (((buildCheckMap checkType merged context).1.ces.get? ce).getD []).map UsableCheck.body =
      bodiesByCe checkType merged ce := by
  rw [buildCheckMap_eq, ← addAll, get?_ces]
  change ([] ++ _ : List UsableCheck).map _ = _
  rw [List.nil_append, map_body_flatMap checkType _ fun body =>
    ((knownCes (mappingAt merged "ce") body).map Scalar.str).countP (· == ce)]
  simp only [knownCes_eq, countP_knownCes]
  unfold bodiesByCe usableBodies
  split
  · rfl
  · simp

section
variable (checkType : String) {merged : Mapping}
  (hd : ∀ name, Tree.Throughout Tree.DistinctNode (.map (mappingAt merged name)))
include hd

theorem map_body_checks (context : Tree) (name : Scalar) :
    (((buildCheckMap checkType merged context).1.checks.get? name).getD []).map UsableCheck.body =
      bodiesByName checkType merged name := by
  have hchecks : Table.Distinct (mappingAt merged "checks") := (hd "checks").here
  have hget : Table.get? (usableChecks checkType (mappingAt merged "checks")) name =
      (Table.get? (mappingAt merged "checks") name).bind
        fun t => (UsableCheck.of? checkType t).toOption :=
    Table.get?_filterMap hchecks (fun t => (UsableCheck.of? checkType t).toOption) name
  rw [buildCheckMap_eq, ← addAll, get?_checks _ _ _ _ (distinct_usableChecks hchecks checkType),
    hget, bodiesByName]
  cases Table.get? (mappingAt merged "checks") name with
  | none => rfl
  | some t =>
    rw [Option.bind_some, Option.bind_some, ← of?_body]
    cases (UsableCheck.of? checkType t).toOption <;> rfl

theorem distinct_usableBodies {body : Mapping} (h : body ∈ usableBodies checkType merged) :
    Tree.Throughout Tree.DistinctNode (.map body) := by
  obtain ⟨e, he, hb⟩ := List.mem_filterMap.mp h
  have hbody : e.2 = .map body := by
    unfold usableBody? at hb
    split at hb
    · split at hb
      · rename_i heq _
        rw [heq, Option.some.inj hb]
      · cases hb
    · cases hb
  exact hbody ▸ (Tree.throughout_map.mp (hd "checks")).2 e he

theorem map_body_controls (context : Tree) (control : Scalar) :
    (((buildCheckMap checkType merged context).1.controls.get? control).getD []).map
      UsableCheck.body = bodiesByControl checkType merged control := by
  rw [buildCheckMap_eq, ← addAll, get?_controls]
  change ([] ++ _ : List UsableCheck).map _ = _
  rw [List.nil_append, map_body_flatMap checkType _ fun body => (controlsOn body ++
    (knownCes (mappingAt merged "ce") body).flatMap (ceControlsOn (mappingAt merged "ce"))).countP
      (· == control)]
  refine List.flatMap_congr fun body hbody => ?_
  have hbody := Tree.distinct_mappingAt (distinct_usableBodies checkType hd hbody) "controls"
  rw [List.countP_append, countP_controlsOn hbody.here, knownCes_eq,
    countP_ceControls (hd "ce") control]

end

/-- What one kind of reference pulls in, key by key. -/
theorem map_body_referenced {reach : Scalar → List Mapping}
    {index : Table Scalar (List UsableCheck)}
    (h : ∀ key, ((index.get? key).getD []).map UsableCheck.body = reach key) (body : Mapping)
    (field : String) :
    (referenced body field index).map UsableCheck.body =
      (keysOn (mappingAt body field)).flatMap reach := by
  unfold referenced keysOn
  change ((mappingAt body field).flatMap _).map _ = _
  rw [List.map_flatMap, List.flatMap_map]
  induction mappingAt body field with
  | nil => rfl
  | cons e r ih =>
    rw [List.flatMap_cons, ih, List.filter_cons]
    by_cases hset : e.2.isSet = true
    · simp [hset, h]
    · simp [hset]

theorem profileBody_eq (merged : Mapping) (profile : Scalar) :
    profileBody merged profile = profileMapping merged profile := by
  unfold profileBody profileMapping
  change ((Table.get? (mappingAt merged "profiles") profile).map Tree.entries).getD [] = _
  cases Table.get? (mappingAt merged "profiles") profile with
  | none => rfl
  | some t => cases t <;> rfl

/-- In data with distinct keys the index answers the routes. -/
theorem map_body_profileChecks (checkType : String) {merged : Mapping}
    (hd : ∀ name, Tree.Throughout Tree.DistinctNode (.map (mappingAt merged name)))
    (context : Tree) (profile : Scalar) :
    (profileChecks merged (buildCheckMap checkType merged context).1 profile).map UsableCheck.body =
      routedBodies checkType merged profile := by
  unfold profileChecks routedBodies
  rw [profileBody_eq, List.map_append, List.map_append,
    map_body_referenced (map_body_checks checkType hd context),
    map_body_referenced (map_body_controls checkType hd context),
    map_body_referenced (map_body_ces checkType merged context)]

/-- **The checks of a profile are those its routes reach**, in the order of the routes and each as
often as it is reached. -/
theorem profileChecks_bodies (corpus : Corpus) (lead : Option String) (checkType : String)
    (profile : Scalar) (context : Tree) :
    ∃ merged, (mergeConfined corpus (.ofPrefix lead) context).outcome = .ok merged ∧
      (profileChecks merged (buildCheckMap checkType merged context).1 profile).map
        UsableCheck.body = routedBodies checkType merged profile :=
  ⟨confinedView corpus (.ofPrefix lead) context, mergeConfined_ofPrefix corpus lead context,
    map_body_profileChecks checkType (distinctNode_confinedView corpus _ context) context profile⟩

end Compliance
