import Compliance.Hiera.Compiler
import Compliance.Proofs.CheckIndex
import Compliance.Proofs.ConfinedView

/-! # What resolving parameters keeps

* `unionItems_off`: a union without a marker is the list of all items without twins.
* `resolve_keeps`: what merging without a marker keeps holds of every value of the result.
* `resolve_total`: settings whose values have a kind, under a kept property, resolve.
* `contains_resolve`: the parameters of the result are those of the settings.
* `compile_outcome`, `compile_messages`: a compilation ends as the resolving of the settings of the
  profile's checks, after the messages of merging and indexing.
* `pulledChecks_keeps`: what merging keeps holds of the values that a compilation resolves.
-/

namespace Compliance

open Compliance.Tree (mappingAt)

theorem unionItems_off (existing items : List Tree) :
    Merge.unionItems .off existing items = unique (existing ++ items) := by
  have hstruck : ∀ t : Tree, Knockout.struck? .off t = none := fun _ => rfl
  have hnone : items.filterMap (Knockout.struck? .off) = [] :=
    List.filterMap_eq_nil_iff.mpr fun t _ => hstruck t
  unfold Merge.unionItems
  dsimp only
  rw [hnone]
  congr 2
  · refine List.filter_eq_self.mpr fun t _ => ?_
    split <;> rfl
  · exact List.filter_eq_self.mpr fun t _ => rfl

variable {Kept : Tree → Prop}

theorem resolveStep_keeps (I : Merge.Keeps .unite Kept Kept) {label parameter : String}
    {previous value result : Tree} (hp : Tree.Throughout Kept previous)
    (hv : Tree.Throughout Kept value)
    (h : (resolveStep label parameter previous value).outcome = .ok result) :
    Tree.Throughout Kept result := by
  unfold resolveStep at h
  split at h
  · cases h
  · cases h
  split at h
  · obtain rfl := Except.ok.inj h
    exact hv
  split at h
  · obtain rfl := Except.ok.inj h
    exact Merge.deepMerge_keeps I hp hv
  · rename_i old new _ _
    obtain rfl := Except.ok.inj h
    have hold := hp.here
    rw [Tree.throughout_seq, ← unionItems_off]
    exact I.united old new rfl (fun _ => hold) hv.here
  · split at h
    · obtain rfl := Except.ok.inj h
      exact hv
    · obtain rfl := Except.ok.inj h
      exact hv

theorem resolveStep_total {label parameter : String} {previous value : Tree} {k l : Kind}
    (hp : previous.kind? = .ok k) (hv : value.kind? = .ok l) :
    ∃ result, (resolveStep label parameter previous value).outcome = .ok result := by
  unfold resolveStep
  rw [hp, hv]
  dsimp only
  split
  · exact ⟨_, rfl⟩
  split
  · exact ⟨_, rfl⟩
  · exact ⟨_, rfl⟩
  · split
    · exact ⟨_, rfl⟩
    · exact ⟨_, rfl⟩

/-- The values of resolved data are kept. -/
def DataKept (Kept : Tree → Prop) (data : Table String Tree) : Prop :=
  ∀ e ∈ data, Tree.Throughout Kept e.2

theorem DataKept.insert {data : Table String Tree} {parameter : String} {value : Tree}
    (h : DataKept Kept data) (hv : Tree.Throughout Kept value) :
    DataKept Kept (data.insert parameter value) := fun e he => by
  rcases Table.mem_insert he with hold | ⟨hnew, -⟩
  · exact h e hold
  · exact hnew ▸ hv

theorem resolveSetting_keeps (I : Merge.Keeps .unite Kept Kept) {label : String}
    {data result : Table String Tree} {setting : Setting} (hd : DataKept Kept data)
    (hv : Tree.Throughout Kept setting.value)
    (h : (resolveSetting label data setting).outcome = .ok result) : DataKept Kept result := by
  unfold resolveSetting at h
  split at h
  · obtain rfl := Except.ok.inj h
    exact hd.insert hv
  · rename_i previous hp
    obtain ⟨name, hm, -⟩ := Table.mem_of_get? hp
    obtain ⟨value, hr, h⟩ := Logged.andThen_ok.mp h
    obtain rfl := Except.ok.inj h
    exact hd.insert (resolveStep_keeps I (hd _ hm) hv hr)

/-- **What merging without a marker keeps holds of every resolved value.** -/
theorem resolve_keeps (I : Merge.Keeps .unite Kept Kept) {profile : Scalar} {context : Tree}
    {settings : List Setting} {data : Table String Tree}
    (hv : ∀ s ∈ settings, Tree.Throughout Kept s.value)
    (h : (resolve profile context settings).outcome = .ok data) : DataKept Kept data :=
  Logged.fold_keeps (DataKept Kept) (fun _ he => absurd he List.not_mem_nil)
    (fun s hs _ _ hd hr => resolveSetting_keeps I hd (hv s hs) hr) h

theorem resolveSetting_total (I : Merge.Keeps .unite Kept Kept)
    (hkind : ∀ t, Kept t → ∃ k, t.kind? = .ok k) (label : String) {data : Table String Tree}
    {setting : Setting} (hd : DataKept Kept data) (hv : Tree.Throughout Kept setting.value) :
    ∃ result, (resolveSetting label data setting).outcome = .ok result ∧ DataKept Kept result := by
  have hend : ∃ result, (resolveSetting label data setting).outcome = .ok result := by
    unfold resolveSetting
    split
    · exact ⟨_, rfl⟩
    · rename_i previous hp
      obtain ⟨name, hm, -⟩ := Table.mem_of_get? hp
      obtain ⟨k, hk⟩ := hkind _ (hd _ hm).here
      obtain ⟨l, hl⟩ := hkind _ hv.here
      obtain ⟨value, hr⟩ := resolveStep_total hk hl
      exact ⟨_, Logged.andThen_ok.mpr ⟨value, hr, rfl⟩⟩
  obtain ⟨result, hr⟩ := hend
  exact ⟨result, hr, resolveSetting_keeps I hd hv hr⟩

/-- **Settings whose values have a kind resolve.** -/
theorem resolve_total (I : Merge.Keeps .unite Kept Kept)
    (hkind : ∀ t, Kept t → ∃ k, t.kind? = .ok k) (profile : Scalar) (context : Tree)
    {settings : List Setting} (hv : ∀ s ∈ settings, Tree.Throughout Kept s.value) :
    ∃ data, (resolve profile context settings).outcome = .ok data ∧ DataKept Kept data :=
  Logged.fold_total (DataKept Kept) (fun _ he => absurd he List.not_mem_nil)
    fun s hs _ hd => resolveSetting_total I hkind _ hd (hv s hs)

theorem exists_insert_of_resolveSetting {label : String} {data result : Table String Tree}
    {setting : Setting} (h : (resolveSetting label data setting).outcome = .ok result) :
    ∃ value, result = data.insert setting.parameter value := by
  unfold resolveSetting at h
  split at h
  · exact ⟨_, (Except.ok.inj h).symm⟩
  · obtain ⟨value, -, h⟩ := Logged.andThen_ok.mp h
    exact ⟨value, (Except.ok.inj h).symm⟩

theorem contains_fold_resolveSetting (label parameter : String) : ∀ {settings : List Setting}
    {data result : Table String Tree},
    (Logged.fold settings data (resolveSetting label)).outcome = .ok result →
    (result.contains parameter = true ↔
      data.contains parameter = true ∨ ∃ s ∈ settings, s.parameter = parameter)
  | [], data, result, h => by
    obtain rfl := Except.ok.inj h
    simp
  | setting :: r, data, result, h => by
    obtain ⟨next, hstep, hrest⟩ := Logged.andThen_ok.mp h
    obtain ⟨value, rfl⟩ := exists_insert_of_resolveSetting hstep
    rw [contains_fold_resolveSetting label parameter hrest, Table.contains, Table.get?_insert]
    simp only [List.mem_cons, or_and_right, exists_or, exists_eq_left]
    by_cases hp : setting.parameter = parameter
    · simp [hp]
    · simp [hp, Table.contains]

/-- **The parameters of resolved data** are those of the settings. -/
theorem contains_resolve {profile : Scalar} {context : Tree} {settings : List Setting}
    {data : Table String Tree} (h : (resolve profile context settings).outcome = .ok data)
    (parameter : String) :
    data.contains parameter = true ↔ ∃ s ∈ settings, s.parameter = parameter := by
  rw [contains_fold_resolveSetting _ parameter h]
  simp [Table.contains, Table.get?]

/-! ## Compilation -/

/-- The checks that a profile pulls in from the merged data of a context. -/
def pulledChecks (corpus : Corpus) (lead : Option String) (checkType : String) (profile : Scalar)
    (context : Tree) : List UsableCheck :=
  let merged := confinedView corpus (.ofPrefix lead) context
  profileChecks merged (buildCheckMap checkType merged context).1 profile

/-- **A compilation ends as the settings of the profile's checks resolve**; none resolve to
nothing. -/
theorem compile_outcome (corpus : Corpus) (lead : Option String) (checkType : String)
    (profile : Scalar) (context : Tree) :
    (Compiler.compile ⟨corpus, .ofPrefix lead, checkType⟩ profile context).outcome =
      (resolve profile context ((pulledChecks corpus lead checkType profile context).map
        Compiler.settingOf)).outcome := by
  unfold pulledChecks Compiler.compile Compiler.mergeConfined Compiler.buildCheckMap Logged.andThen
  rw [mergeConfined_ofPrefix]
  dsimp only [Logged.log]
  cases profileChecks (confinedView corpus (.ofPrefix lead) context)
    (buildCheckMap checkType (confinedView corpus (.ofPrefix lead) context) context).1 profile
    <;> rfl

/-- **What a compilation reports**: what merging, indexing and resolving report, and that there are
no values if there is nothing to resolve. -/
theorem compile_messages (corpus : Corpus) (lead : Option String) (checkType : String)
    (profile : Scalar) (context : Tree) :
    (Compiler.compile ⟨corpus, .ofPrefix lead, checkType⟩ profile context).messages =
      (mergeConfined corpus (.ofPrefix lead) context).messages ++
        ((buildCheckMap checkType (confinedView corpus (.ofPrefix lead) context) context).2 ++
          if (pulledChecks corpus lead checkType profile context).isEmpty then
            [.note (profile.text ++ " " ++ describeContext context ++ ": No Hiera values found")]
          else
            (resolve profile context ((pulledChecks corpus lead checkType profile context).map
              Compiler.settingOf)).messages) := by
  unfold pulledChecks Compiler.compile Compiler.mergeConfined Compiler.buildCheckMap Logged.andThen
  rw [mergeConfined_ofPrefix]
  dsimp only [Logged.log]
  cases profileChecks (confinedView corpus (.ofPrefix lead) context)
    (buildCheckMap checkType (confinedView corpus (.ofPrefix lead) context) context).1 profile
    <;> rfl

/-- A pulled check is usable, and stands in the merged checks. -/
theorem mem_pulledChecks {corpus : Corpus} {lead : Option String} {checkType : String}
    {profile : Scalar} {context : Tree} {check : UsableCheck}
    (h : check ∈ pulledChecks corpus lead checkType profile context) :
    ∃ name t, (name, t) ∈ mappingAt (confinedView corpus (.ofPrefix lead) context) "checks" ∧
      UsableCheck.of? checkType t = .ok check :=
  mem_profileChecks (distinctNode_confinedView corpus _ context "checks").here h

theorem value_of_check {P : Tree → Prop} {checkType : String} {checks : Mapping} {name : Scalar}
    {t : Tree} {check : UsableCheck} (hc : Tree.Throughout P (.map checks))
    (hm : (name, t) ∈ checks) (hu : UsableCheck.of? checkType t = .ok check) :
    Tree.Throughout P check.value := by
  obtain ⟨rfl, -, settings, hs, -, hv⟩ := of?_eq_ok.mp hu
  have hbody : Tree.Throughout P (.map check.body) := (Tree.throughout_map.mp hc).2 _ hm
  exact (hbody.mapField? hs).get? hv

/-- **What merging keeps holds of the value of every pulled check.** -/
theorem pulledChecks_keeps {Given : Tree → Prop} {lead : Option String}
    (I : Merge.Keeps (sectionMode (.ofPrefix lead)) Given Kept)
    (hsub : ∀ es kept : Mapping, Given (.map es) → (∀ e ∈ kept, e ∈ es) → Given (.map kept))
    {corpus : Corpus} (hc : ∀ part ∈ corpus.sections, Tree.Throughout Given part.2.2)
    {checkType : String} {profile : Scalar} {context : Tree} {check : UsableCheck}
    (h : check ∈ pulledChecks corpus lead checkType profile context) :
    Tree.Throughout Kept check.value := by
  obtain ⟨name, t, hm, hu⟩ := mem_pulledChecks h
  exact value_of_check (mappingAt_keeps I hsub corpus hc context "checks") hm hu

end Compliance
