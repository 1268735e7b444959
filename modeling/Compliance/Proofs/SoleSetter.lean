import Compliance.Proofs.Runs
import Compliance.Proofs.SelfMerge

/-! # Parameters that one check sets

A profile may reach a check by its name, by several controls and by several CEs, and the check sets
its parameter each time anew. If no other check that the profile reaches sets the parameter, the
value laid over what is there is always the same, and merging the documents has made it steady.

* `settingMessages`: what resolving reports, message by message with the parameter it is about.
* `OnlyValue`: a parameter has one value or none; `resolveSetting_onlyValue` keeps it so.
* `settingMessages_sole`, `resolve_sole`: the notes about such a parameter, and its value.
* `skipMessages`, `skipMessages_about`: what indexing reports, and what of it names a parameter.
* `file_of_mergeConfined`: what merging reports begins with a file.
* `parameterMessages`: everything that a compilation reports, by parameter.
* `sole_check_compiles`: the value of a parameter that one check of a profile sets, and what is
  reported about it: notes, and that another check names it without a value.
-/

namespace Compliance

open Compliance.Tree (Throughout KeysDistinct NaNFree Steady mappingAt)

/-! ## Messages by parameter -/

/-- What settings report that are resolved in order, each message with its parameter. -/
def settingMessages (label : String) : List Setting → Table String Tree → List (String × Message)
  | [], _ => []
  | setting :: r, data =>
    (resolveSetting label data setting).messages.map (fun m => (setting.parameter, m)) ++
      match (resolveSetting label data setting).outcome with
      | .ok next => settingMessages label r next
      | .error _ => []

theorem settingMessages_text (label : String) : ∀ (settings : List Setting)
    (data : Table String Tree),
    (settingMessages label settings data).map (·.2) =
      (Logged.fold settings data (resolveSetting label)).messages
  | [], _ => rfl
  | setting :: r, data => by
    rw [settingMessages, Logged.fold, Logged.andThen, List.map_append, List.map_map]
    have hown : ∀ ms : List Message,
        ms.map ((fun x => x.2) ∘ fun m => (setting.parameter, m)) = ms := fun ms => List.map_id ms
    rw [hown]
    cases (resolveSetting label data setting).outcome with
    | ok next => exact congrArg _ (settingMessages_text label r next)
    | error fault => exact List.append_nil _

/-! ## One value -/

/-- The parameter has no value, or this one. -/
def OnlyValue (parameter : String) (t : Tree) (data : Table String Tree) : Prop :=
  ∀ u, data.get? parameter = some u → u = t

theorem onlyValue_nil (parameter : String) (t : Tree) : OnlyValue parameter t [] :=
  fun _ hu => absurd hu (Option.some_ne_none _).symm

variable (label : String) {parameter : String} {t : Tree} {data : Table String Tree}
  {setting : Setting}

/-- **One more setting**: the parameter has one value still, and there are but notes about it. -/
theorem resolveSetting_onlyValue (ht : Throughout Steady t) (hd : OnlyValue parameter t data)
    (hs : setting.parameter = parameter → setting.value = t) :
    (setting.parameter = parameter →
      ∀ m ∈ (resolveSetting label data setting).messages, m.level = .note) ∧
    ∀ result, (resolveSetting label data setting).outcome = .ok result →
      OnlyValue parameter t result := by
  by_cases hp : setting.parameter = parameter
  · have hvalue : setting.value = t := hs hp
    unfold resolveSetting
    rw [hp, hvalue]
    cases hget : data.get? parameter with
    | none =>
      refine ⟨fun _ m hm => absurd hm List.not_mem_nil, fun result h u hu => ?_⟩
      rw [← Except.ok.inj h, Table.get?_insert, if_pos BEq.rfl] at hu
      exact (Option.some.inj hu).symm
    | some previous =>
      have hprevious : previous = t := hd previous hget
      obtain ⟨hnotes, hstays⟩ := resolveStep_self ht label parameter
      rw [hprevious]
      refine ⟨fun _ m hm => ?_, fun result h u hu => ?_⟩
      · exact (Logged.mem_andThen hm).elim (hnotes m) fun ⟨_, _, hm⟩ => absurd hm List.not_mem_nil
      · obtain ⟨value, hstep, h⟩ := Logged.andThen_ok.mp h
        rw [← Except.ok.inj h, Table.get?_insert, if_pos BEq.rfl] at hu
        rw [← Option.some.inj hu, hstays value hstep]
  · refine ⟨fun h => absurd h hp, fun result h u hu => ?_⟩
    obtain ⟨value, rfl⟩ := exists_insert_of_resolveSetting h
    rw [Table.get?_insert, if_neg (by simpa using hp)] at hu
    exact hd u hu

/-- **All settings**: there are but notes about a parameter that gets one value only. -/
theorem settingMessages_sole (ht : Throughout Steady t) : ∀ {settings : List Setting}
    {data : Table String Tree}, (∀ s ∈ settings, s.parameter = parameter → s.value = t) →
    OnlyValue parameter t data →
    ∀ m, (parameter, m) ∈ settingMessages label settings data → m.level = .note
  | [], _, _, _, _, hm => absurd hm List.not_mem_nil
  | setting :: r, data, hs, hd, m, hm => by
    obtain ⟨hnotes, hstays⟩ :=
      resolveSetting_onlyValue label ht hd (hs setting List.mem_cons_self)
    rcases List.mem_append.mp hm with hm | hm
    · obtain ⟨own, hown, heq⟩ := List.mem_map.mp hm
      obtain ⟨hp, rfl⟩ := Prod.mk.inj heq
      exact hnotes hp own hown
    · cases hnext : (resolveSetting label data setting).outcome with
      | error fault =>
        rw [hnext] at hm
        cases hm
      | ok next =>
        rw [hnext] at hm
        exact settingMessages_sole ht (fun s hin => hs s (List.mem_cons_of_mem _ hin))
          (hstays next hnext) m hm

/-- **A parameter that gets one value only has this value.** -/
theorem resolve_sole (ht : Throughout Steady t) {profile : Scalar} {context : Tree}
    {settings : List Setting} (hs : ∀ s ∈ settings, s.parameter = parameter → s.value = t)
    (hset : ∃ s ∈ settings, s.parameter = parameter)
    (h : (resolve profile context settings).outcome = .ok data) :
    data.get? parameter = some t := by
  have honly : OnlyValue parameter t data :=
    Logged.fold_keeps (OnlyValue parameter t) (onlyValue_nil parameter t)
      (fun s hin _ _ hd hr => (resolveSetting_onlyValue _ ht hd (hs s hin)).2 _ hr) h
  obtain ⟨u, hu⟩ := Option.isSome_iff_exists.mp ((contains_resolve h parameter).mpr hset)
  rw [hu, honly u hu]

/-! ## Skipped checks -/

/-- The parameter that a check names which is skipped for want of a value. -/
def Unusable.parameter? : Unusable → Option String
  | .noValue parameter => some parameter
  | _ => none

/-- The check is skipped because it has no value for the parameter that it names. -/
def lacksValue (checkType parameter : String) (t : Tree) : Bool :=
  match UsableCheck.of? checkType t with
  | .ok _ => false
  | .error reason => reason.parameter? == some parameter

/-- What indexing reports, each message with the parameter that it names. -/
def skipMessages (checkType : String) (context : Tree) (checks : Mapping) :
    List (Option String × Message) :=
  checks.flatMap fun e =>
    match UsableCheck.of? checkType e.2 with
    | .ok _ => []
    | .error reason => [(reason.parameter?, skipWarning context e.1 reason)]

theorem Unusable.parameter?_eq_some {reason : Unusable} {parameter : String} :
    reason.parameter? = some parameter ↔ reason = .noValue parameter := by
  cases reason <;> simp [Unusable.parameter?]

theorem lacksValue_iff {checkType parameter : String} {t : Tree} :
    lacksValue checkType parameter t = true ↔ Valueless checkType parameter t := by
  rw [← of?_eq_noValue]
  unfold lacksValue
  cases UsableCheck.of? checkType t with
  | ok check => simp
  | error reason => simp [Unusable.parameter?_eq_some]

theorem skipMessages_text (checkType : String) (merged : Mapping) (context : Tree) :
    (skipMessages checkType context (mappingAt merged "checks")).map (·.2) =
      (buildCheckMap checkType merged context).2 := by
  rw [buildCheckMap_eq]
  unfold skipMessages unusableReports
  rw [List.map_flatMap]
  apply List.flatMap_congr
  intro e _
  cases UsableCheck.of? checkType e.2 <;> rfl

/-- **The skipped checks that name a parameter**, in order. -/
theorem skipMessages_about (checkType parameter : String) (context : Tree) (checks : Mapping) :
    ((skipMessages checkType context checks).filter fun x => x.1 == some parameter).map (·.2) =
      (checks.filter fun e => lacksValue checkType parameter e.2).map fun e =>
        skipWarning context e.1 (.noValue parameter) := by
  induction checks with
  | nil => rfl
  | cons e checks ih =>
    rw [skipMessages, List.flatMap_cons, ← skipMessages, List.filter_append, List.map_append, ih,
      List.filter_cons]
    cases hu : UsableCheck.of? checkType e.2 with
    | ok check => simp [lacksValue, hu]
    | error reason =>
      by_cases hp : reason.parameter? = some parameter
      · obtain rfl := Unusable.parameter?_eq_some.mp hp
        simp [lacksValue, hu, Unusable.parameter?]
      · simp [lacksValue, hu, hp]

/-! ## Merging -/

theorem file_of_mergeConfined {corpus : Corpus} {knockout : Knockout} {context : Tree}
    {m : Message} (h : m ∈ (mergeConfined corpus knockout context).messages) :
    ∃ part ∈ corpus.parts, part.1.toList <+: m.text.toList := by
  obtain ⟨⟨file, key, value⟩, hsection, merged, hm⟩ := Logged.mem_fold h
  obtain ⟨part, hpart, he⟩ := List.mem_flatMap.mp hsection
  obtain ⟨e, -, heq⟩ := List.mem_map.mp he
  obtain ⟨rfl, -⟩ := Prod.mk.inj heq
  refine ⟨part, hpart, ?_⟩
  have hmessages : m ∈ (applyConfinement part.1 value context).2 ++
      redefinition part.1 (describeContext context) merged key
        (applyConfinement part.1 value context).1 := by
    unfold mergeSectionLogged at hm
    dsimp only at hm
    split at hm <;> exact hm
  rcases List.mem_append.mp hmessages with hclause | hredefined
  · unfold applyConfinement at hclause
    split at hclause
    case h_1 => cases hclause
    case h_3 => cases hclause
    obtain ⟨judged, hj, hclause⟩ := List.mem_flatMap.mp hclause
    obtain ⟨e, -, rfl⟩ := List.mem_map.mp hj
    unfold shouldDelete at hclause
    split at hclause
    case h_1 => cases hclause
    case h_2 => cases hclause
    rw [List.mem_singleton.mp hclause]
    simp [Message.warning]
  · unfold redefinition at hredefined
    split at hredefined
    · cases hredefined
    split at hredefined
    · cases hredefined
    dsimp only at hredefined
    split at hredefined
    · rw [List.mem_singleton.mp hredefined]
      simp [Message.note]
    · rw [List.mem_singleton.mp hredefined]
      simp [Message.warning]

/-! ## Compilation -/

/-- What a compilation reports, each message with the parameter that it is about. Merging is about
the sections of documents; indexing is about checks, and about a parameter where a check has no
value for it; resolving is about parameters. -/
def parameterMessages (c : Compiler) (merged : Mapping) (profile : Scalar) (context : Tree) :
    List (Option String × Message) :=
  (c.mergeConfined context).messages.map (fun m => (none, m)) ++
    (skipMessages c.checkType context (mappingAt merged "checks") ++
      (settingMessages (profile.text ++ " " ++ describeContext context)
        ((profileChecks merged (c.buildCheckMap merged context).1 profile).map Compiler.settingOf)
        []).map fun x => (some x.1, x.2))

/-- A message about no parameter is no error. It is about a file, or about a check that is skipped
for another reason than a value. -/
theorem parameterMessages_none {c : Compiler} {merged : Mapping} {profile : Scalar}
    {context : Tree} {m : Message} (h : (none, m) ∈ parameterMessages c merged profile context) :
    m.level ≠ .error ∧ ((∃ part ∈ c.corpus.parts, part.1.toList <+: m.text.toList) ∨
      ∃ e ∈ mappingAt merged "checks", ∃ reason : Unusable, reason.parameter? = none ∧
        m = skipWarning context e.1 reason) := by
  rcases List.mem_append.mp h with hmerge | h
  · obtain ⟨own, hown, heq⟩ := List.mem_map.mp hmerge
    obtain ⟨-, rfl⟩ := Prod.mk.inj heq
    exact ⟨quiet_mergeConfined _ _ _ own hown, .inl (file_of_mergeConfined hown)⟩
  rcases List.mem_append.mp h with hskip | hresolve
  · obtain ⟨e, he, hskip⟩ := List.mem_flatMap.mp hskip
    split at hskip
    · cases hskip
    · rename_i reason hu
      obtain ⟨hnone, rfl⟩ := Prod.mk.inj (List.mem_singleton.mp hskip)
      exact ⟨Level.noConfusion, .inr ⟨e, he, reason, hnone.symm, rfl⟩⟩
  · obtain ⟨own, -, heq⟩ := List.mem_map.mp hresolve
    cases (Prod.mk.inj heq).1

/-- **What is reported about a parameter** with one value besides notes: that checks have none. -/
theorem parameterMessages_about {c : Compiler} {merged : Mapping} {profile : Scalar}
    {context : Tree} {parameter : String}
    (hnotes : ∀ m, (parameter, m) ∈ settingMessages
      (profile.text ++ " " ++ describeContext context)
      ((profileChecks merged (c.buildCheckMap merged context).1 profile).map Compiler.settingOf)
      [] → m.level = .note) :
    ((parameterMessages c merged profile context).filter fun x =>
        x.1 == some parameter && x.2.level != .note).map (·.2) =
      ((mappingAt merged "checks").filter fun e => lacksValue c.checkType parameter e.2).map
        fun e => skipWarning context e.1 (.noValue parameter) := by
  have hmerge : ((c.mergeConfined context).messages.map fun m => ((none : Option String), m)).filter
      (fun x => x.1 == some parameter && x.2.level != .note) = [] := by
    simp
  have hskip : (skipMessages c.checkType context (mappingAt merged "checks")).filter
      (fun x => x.1 == some parameter && x.2.level != .note) =
      (skipMessages c.checkType context (mappingAt merged "checks")).filter
        fun x => x.1 == some parameter := by
    apply List.filter_congr
    intro x hx
    obtain ⟨e, -, hx⟩ := List.mem_flatMap.mp hx
    split at hx
    · cases hx
    · rw [List.mem_singleton.mp hx]
      exact Bool.and_true _
  have hresolve : ((settingMessages (profile.text ++ " " ++ describeContext context)
      ((profileChecks merged (c.buildCheckMap merged context).1 profile).map Compiler.settingOf)
      []).map fun x => (some x.1, x.2)).filter
        (fun x => x.1 == some parameter && x.2.level != .note) = [] := by
    rw [List.filter_eq_nil_iff]
    intro x hx hsome
    obtain ⟨own, hown, rfl⟩ := List.mem_map.mp hx
    simp only [Bool.and_eq_true, beq_iff_eq, Option.some.injEq, bne_iff_ne] at hsome
    obtain ⟨rfl, hlevel⟩ := hsome
    exact hlevel (hnotes own.2 hown)
  unfold parameterMessages
  rw [List.filter_append, List.filter_append, hmerge, hskip, hresolve, List.nil_append,
    List.append_nil, skipMessages_about]

/-- These are the messages of a compilation that has something to resolve. -/
theorem parameterMessages_text {corpus : Corpus} {lead : Option String} {checkType : String}
    {profile : Scalar} {context : Tree}
    (h : (pulledChecks corpus lead checkType profile context).isEmpty = false) :
    (Compiler.compile ⟨corpus, .ofPrefix lead, checkType⟩ profile context).messages =
      (parameterMessages ⟨corpus, .ofPrefix lead, checkType⟩
        (confinedView corpus (.ofPrefix lead) context) profile context).map (·.2) := by
  have hresolved : (((settingMessages (profile.text ++ " " ++ describeContext context)
      ((pulledChecks corpus lead checkType profile context).map Compiler.settingOf)
      []).map fun x => (some x.1, x.2)).map (·.2)) =
      (resolve profile context ((pulledChecks corpus lead checkType profile context).map
        Compiler.settingOf)).messages := by
    rw [List.map_map]
    exact settingMessages_text _ _ _
  have hmerge : (((mergeConfined corpus (.ofPrefix lead) context).messages.map
      fun m => ((none : Option String), m)).map (·.2)) =
      (mergeConfined corpus (.ofPrefix lead) context).messages := by
    rw [List.map_map]
    exact List.map_id _
  rw [compile_messages, h, if_neg Bool.false_ne_true, ← hresolved, ← skipMessages_text,
    parameterMessages, List.map_append, List.map_append]
  exact congrArg (· ++ _) hmerge.symm

/-- **A check that is alone in setting its parameter compiles to its own value**, however often the
profile reaches it. The compilation of checked documents ends, and the value is the one in the
settings of the merged check. What is reported about the parameter are notes, and for each check
that names the parameter but has no value one warning that it is skipped. -/
theorem sole_check_compiles (corpus : Corpus)
    (hkeys : ∀ part ∈ corpus.parts, KeysDistinct (.map part.2))
    (hnan : ∀ part ∈ corpus.parts, NaNFree (.map part.2)) (lead : Option String)
    (checkType : String) (profile : Scalar) (context : Tree) :
    let c : Compiler := ⟨corpus, .ofPrefix lead, checkType⟩
    ∃ merged, (c.mergeConfined context).outcome = .ok merged ∧
      ∀ check ∈ profileChecks merged (c.buildCheckMap merged context).1 profile,
        (∀ other ∈ profileChecks merged (c.buildCheckMap merged context).1 profile,
          other.parameter = check.parameter → other = check) →
        (∃ settings, Tree.mapField? check.body "settings" = some settings ∧
          Tree.field? settings "parameter" = some (.str check.parameter) ∧
          Tree.field? settings "value" = some check.value) ∧
        (CheckedDocuments corpus → ∃ data, (c.compile profile context).outcome = .ok data) ∧
        (∀ data, (c.compile profile context).outcome = .ok data →
          data.get? check.parameter = some check.value) ∧
        (c.compile profile context).messages =
          (parameterMessages c merged profile context).map (·.2) ∧
        (((parameterMessages c merged profile context).filter fun x =>
            x.1 == some check.parameter && x.2.level != .note).map (·.2) =
          ((mappingAt merged "checks").filter fun e =>
            lacksValue checkType check.parameter e.2).map
              fun e => skipWarning context e.1 (.noValue check.parameter)) ∧
        (∀ t, lacksValue checkType check.parameter t = true ↔
          Valueless checkType check.parameter t) ∧
        ∀ m, (none, m) ∈ parameterMessages c merged profile context → m.level ≠ .error ∧
          ((∃ part ∈ corpus.parts, part.1.toList <+: m.text.toList) ∨
            ∃ e ∈ mappingAt merged "checks", ∃ reason : Unusable, reason.parameter? = none ∧
              m = skipWarning context e.1 reason) := by
  intro c
  refine ⟨_, mergeConfined_ofPrefix corpus lead context, fun check hcheck hsole => ?_⟩
  have hpulled : check ∈ pulledChecks corpus lead checkType profile context := hcheck
  have hsteady : Throughout Steady check.value := steady_pulledChecks hkeys hnan hpulled
  obtain ⟨name, body, -, husable⟩ := mem_pulledChecks hpulled
  obtain ⟨-, -, hsettings⟩ := of?_eq_ok.mp husable
  have hvalue : ∀ s ∈ (pulledChecks corpus lead checkType profile context).map Compiler.settingOf,
      s.parameter = check.parameter → s.value = check.value := by
    intro s hs hp
    obtain ⟨other, hin, rfl⟩ := List.mem_map.mp hs
    rw [hsole other hin hp]
    rfl
  have hset : ∃ s ∈ (pulledChecks corpus lead checkType profile context).map Compiler.settingOf,
      s.parameter = check.parameter :=
    ⟨Compiler.settingOf check, List.mem_map_of_mem hpulled, rfl⟩
  have hsome : (pulledChecks corpus lead checkType profile context).isEmpty = false :=
    List.isEmpty_eq_false_iff.mpr (List.ne_nil_of_mem hpulled)
  refine ⟨hsettings, fun hchecked => compile_total hchecked lead checkType profile context,
    fun data hdata => ?value, ?messages,
    parameterMessages_about (settingMessages_sole _ hsteady hvalue (onlyValue_nil _ _)),
    fun t => lacksValue_iff, fun m hm => parameterMessages_none hm⟩
  case value =>
    rw [compile_outcome] at hdata
    exact resolve_sole hsteady hvalue hset hdata
  case messages => exact parameterMessages_text hsome

/-- A CE that turns one control on. -/
def sharingCe : Tree := .map [(.str "controls", .map [(.str "shared", .bool true)])]

/-- A check reached by its name, by a control of its own, by two CEs and twice by their control; its
value comes from two documents. -/
def manyRoutes : Corpus := [
  ("a.yaml", .map [
    (.str "profiles", .map [(.str "base", .map [
      (.str "checks", .map [(.str "c", .bool true)]),
      (.str "controls", .map [(.str "own", .bool true), (.str "shared", .bool true)]),
      (.str "ces", .map [(.str "e", .bool true), (.str "f", .bool true)])])]),
    (.str "ce", .map [(.str "e", sharingCe), (.str "f", sharingCe)]),
    (.str "checks", .map [(.str "c", .map [
      (.str "type", .str "puppet-class-parameter"),
      (.str "controls", .map [(.str "own", .bool true)]),
      (.str "ces", .seq [.str "e", .str "f"]),
      (.str "settings", .map [
        (.str "parameter", .str "ports"),
        (.str "value", .map [(.str "open", .seq [.int 22, .int 80])])])])])]),
  ("b.yaml", .map [(.str "checks", .map [(.str "c", .map [
    (.str "settings", .map [
      (.str "value", .map [(.str "open", .seq [.int 80, .int 443])])])])])])]

def routedCheck : UsableCheck where
  body := [
    (.str "type", .str "puppet-class-parameter"),
    (.str "controls", .map [(.str "own", .bool true)]),
    (.str "ces", .seq [.str "e", .str "f"]),
    (.str "settings", .map [
      (.str "parameter", .str "ports"),
      (.str "value", .map [(.str "open", .seq [.int 22, .int 80, .int 443])])])]
  parameter := "ports"
  value := .map [(.str "open", .seq [.int 22, .int 80, .int 443])]

/-- It is reached six times, and the value comes out as it has been merged; five notes tell that it
has been merged with itself. -/
theorem sole_check_compiles_routes :
    (∀ part ∈ manyRoutes.parts, KeysDistinct (.map part.2)) ∧
    (∀ part ∈ manyRoutes.parts, NaNFree (.map part.2)) ∧ CheckedDocuments manyRoutes ∧
    (pulledChecks manyRoutes (some "--") "puppet-class-parameter" (.str "base") .null).length = 6 ∧
    ∃ data, (Compiler.compile ⟨manyRoutes, .ofPrefix (some "--"), "puppet-class-parameter"⟩
        (.str "base") .null) = ⟨List.replicate 5
          (.note "base (no confinement data): Merging Hash values for ports"), .ok data⟩ ∧
      data.get? "ports" = some (.map [(.str "open", .seq [.int 22, .int 80, .int 443])]) := by
  have hkeys : ∀ part ∈ manyRoutes.parts, KeysDistinct (.map part.2) := by decide
  have hnan : ∀ part ∈ manyRoutes.parts, NaNFree (.map part.2) := by decide
  have hchecked : CheckedDocuments manyRoutes :=
    List.forall_mem_cons.mpr ⟨rfl, List.forall_mem_singleton.mpr rfl⟩
  have hpulled : pulledChecks manyRoutes (some "--") "puppet-class-parameter" (.str "base") .null =
    List.replicate 6 routedCheck := rfl
  obtain ⟨merged, hmerged, hsole⟩ := sole_check_compiles manyRoutes hkeys hnan (some "--")
    "puppet-class-parameter" (.str "base") .null
  obtain rfl : confinedView manyRoutes (.ofPrefix (some "--")) .null = merged :=
    Except.ok.inj ((mergeConfined_ofPrefix _ _ _).symm.trans hmerged)
  obtain ⟨-, hends, hvalue, hmessages, -⟩ := hsole routedCheck
    (show routedCheck ∈ pulledChecks _ _ _ _ _ by
      rw [hpulled]
      exact List.mem_replicate.mpr ⟨by decide, rfl⟩)
    fun other (hother : other ∈ pulledChecks _ _ _ _ _) _ => by
      rw [hpulled] at hother
      exact List.eq_of_mem_replicate hother
  obtain ⟨data, hdata⟩ := hends hchecked
  refine ⟨hkeys, hnan, hchecked, by rw [hpulled]; rfl, data, ?_, hvalue data hdata⟩
  rw [← hdata]
  exact congrArg (Logged.mk · _) hmessages

/-- A check with a value for its parameter, and one that names the parameter only. -/
def halfSet : Corpus := [("a.yaml", .map [
  (.str "profiles", .map [(.str "base", .map [
    (.str "checks", .map [(.str "c", .bool true)])])]),
  (.str "checks", .map [
    (.str "c", .map [
      (.str "type", .str "puppet-class-parameter"),
      (.str "settings", .map [(.str "parameter", .str "ports"), (.str "value", .int 22)])]),
    (.str "d", .map [
      (.str "type", .str "puppet-class-parameter"),
      (.str "settings", .map [(.str "parameter", .str "ports")])])])])]

/-- One check sets the parameter, and yet a warning is about it. -/
theorem sole_check_compiles_halfSet :
    (∀ part ∈ halfSet.parts, KeysDistinct (.map part.2)) ∧
    (∀ part ∈ halfSet.parts, NaNFree (.map part.2)) ∧ CheckedDocuments halfSet ∧
    ((pulledChecks halfSet (some "--") "puppet-class-parameter" (.str "base") .null).map
      fun check => (check.parameter, check.value)) = [("ports", .int 22)] ∧
    Compiler.compile ⟨halfSet, .ofPrefix (some "--"), "puppet-class-parameter"⟩
        (.str "base") .null =
      ⟨[.warning ("check d (no confinement data): " ++
        "Missing required key 'value' for parameter ports")], .ok [("ports", .int 22)]⟩ := by
  refine ⟨by decide, by decide, List.forall_mem_singleton.mpr rfl, rfl, ?_⟩
  have hmessages : (Compiler.compile ⟨halfSet, .ofPrefix (some "--"), "puppet-class-parameter"⟩
      (.str "base") .null).messages = [.warning ("check d (no confinement data): " ++
        "Missing required key 'value' for parameter ports")] := by
    decide +kernel
  exact congrArg₂ Logged.mk hmessages rfl

end Compliance
