import Compliance.Proofs.CheckedTrees
import Compliance.Proofs.LoggedFacts
import Compliance.Proofs.ResolveFacts
import Compliance.Proofs.TwinClasses
import Mathlib.Data.List.Basic
import Mathlib.Data.List.Induction

/-! # What the values of a parameter come to

A change of kind discards what a parameter had, so its value is made of the last values of one kind
only: the last one of them, the union of the lists, or the mappings laid over one another.

* `LastRun`: the longest suffix of values of one kind. `combined`: what its values make together.
* `verdict`, `repeats`: which message a value gets, and which values get one.
* `accumulated`: the values taken in one by one; `accumulated_lastRun`: this comes to the same, by
  induction on the values.
* `resolveStep_eq`, `resolveSetting_resolved`: one more setting. `fold_resolved`: all settings, by
  recursion on them.
* `resolve_runs`: resolving as a whole.
-/

namespace Compliance

/-! ## Values of one kind -/

/-- The values that settings give to a parameter, in order. -/
def valuesOf (parameter : String) (settings : List Setting) : List Tree :=
  (settings.filter fun s => s.parameter = parameter).map (·.value)

def OfKind (kind : Kind) (values : List Tree) : Prop := ∀ t ∈ values, t.kind? = .ok kind

/-- **The longest suffix of values that are all of one kind.** -/
structure LastRun (values run : List Tree) (kind : Kind) : Prop where
  suffix : run <:+ values
  nonempty : run ≠ []
  ofKind : OfKind kind run
  longest : ∀ other k, other <:+ values → OfKind k other → other.length ≤ run.length

/-- **What values of one kind make together.** A single value is itself. -/
def combined (kind : Kind) : List Tree → Option Tree
  | [] => none
  | [t] => some t
  | first :: rest =>
    match kind with
    | .sequence => some (.seq (unique ((first :: rest).flatMap Tree.asList)))
    | .mapping => some (.map ((rest.map Tree.entries).foldl (deepMerge .unite) first.entries))
    | _ => rest.getLast?

theorem isMap_of_kind {t : Tree} (h : t.kind? = .ok .mapping) : t = .map t.entries := by
  cases t with
  | map entries => rfl
  | seq items => cases h
  | scalar s => cases s <;> cases h

theorem isSeq_of_kind {t : Tree} (h : t.kind? = .ok .sequence) : t = .seq t.asList := by
  cases t with
  | map entries => cases h
  | seq items => rfl
  | scalar s => cases s <;> cases h

theorem isScalar_of_kind {t : Tree} {kind : Kind} (h : t.kind? = .ok kind) (hm : kind ≠ .mapping)
    (hs : kind ≠ .sequence) : ∃ s, t = .scalar s := by
  cases t with
  | map entries => exact absurd (Except.ok.inj h).symm hm
  | seq items => exact absurd (Except.ok.inj h).symm hs
  | scalar s => exact ⟨s, rfl⟩

theorem LastRun.single {t : Tree} {kind : Kind} (h : t.kind? = .ok kind) :
    LastRun [t] [t] kind where
  suffix := List.suffix_rfl
  nonempty := List.cons_ne_nil _ _
  ofKind := List.forall_mem_singleton.mpr h
  longest _ _ hsuffix _ := hsuffix.length_le

theorem OfKind.last {values part : List Tree} {kind : Kind} {last : Tree} (h : OfKind kind part)
    (hsuffix : part <:+ values) (hne : part ≠ []) (hlast : values.getLast? = some last) :
    last.kind? = .ok kind := by
  obtain ⟨lead, rfl⟩ := hsuffix
  rw [List.getLast?_append_of_ne_nil _ hne] at hlast
  exact h last (List.mem_of_getLast? hlast)

theorem LastRun.extend {values run : List Tree} {kind : Kind} {t : Tree}
    (h : LastRun values run kind) (ht : t.kind? = .ok kind) :
    LastRun (values ++ [t]) (run ++ [t]) kind := by
  obtain ⟨front, rfl⟩ := h.suffix
  refine ⟨⟨front, by simp⟩, by simp, ?_, fun other k hsuffix hk => ?_⟩
  · exact List.forall_mem_append.mpr ⟨h.ofKind, List.forall_mem_singleton.mpr ht⟩
  · rcases List.suffix_concat_iff.mp hsuffix with rfl | ⟨before, rfl, hbefore⟩
    · exact Nat.zero_le _
    · have hle := h.longest before k hbefore fun u hu => hk u (List.mem_append_left _ hu)
      simpa using hle

theorem LastRun.restart {values run : List Tree} {kind k : Kind} {t : Tree}
    (h : LastRun values run kind) (ht : t.kind? = .ok k) (hne : k ≠ kind) :
    LastRun (values ++ [t]) [t] k := by
  refine ⟨List.suffix_append _ _, List.cons_ne_nil _ _, List.forall_mem_singleton.mpr ht,
    fun other l hsuffix hl => ?_⟩
  rcases List.suffix_concat_iff.mp hsuffix with rfl | ⟨before, rfl, hbefore⟩
  · exact Nat.zero_le _
  rcases List.eq_nil_or_concat before with rfl | ⟨front, last, rfl⟩
  · exact Nat.le_refl _
  · -- the run and what is before the value are two suffixes with one last value
    rw [List.concat_eq_append] at hbefore hl
    obtain ⟨lead, hlead⟩ := hbefore
    have hlast : values.getLast? = some last := by
      rw [← hlead, ← List.append_assoc, List.getLast?_concat]
    have hk : last.kind? = .ok kind := h.ofKind.last h.suffix h.nonempty hlast
    have hlast' : last.kind? = .ok l := hl last (by simp)
    have htl : t.kind? = .ok l := hl t (by simp)
    refine absurd ?_ hne
    rw [← Except.ok.inj (htl.symm.trans ht), ← Except.ok.inj (hlast'.symm.trans hk)]

theorem LastRun.unique {values run other : List Tree} {kind k : Kind} (h : LastRun values run kind)
    (h' : LastRun values other k) : run = other ∧ kind = k := by
  have hle := h'.longest run kind h.suffix h.ofKind
  have hge := h.longest other k h'.suffix h'.ofKind
  obtain rfl := (List.suffix_of_suffix_length_le h.suffix h'.suffix hle).eq_of_length
    (Nat.le_antisymm hle hge)
  obtain ⟨t, ht⟩ := List.exists_mem_of_ne_nil run h.nonempty
  exact ⟨rfl, Except.ok.inj ((h.ofKind t ht).symm.trans (h'.ofKind t ht))⟩

/-! ## One value more -/

/-- What a value makes with the one that is there. -/
def joined (previous value : Tree) : Tree :=
  match previous, value with
  | .map old, .map new => .map (deepMerge .unite old new)
  | .seq old, .seq new => .seq (unique (old ++ new))
  | _, _ => value

/-- The level of the message about a value that comes after another. -/
def verdict (previous value : Tree) : Level :=
  if previous.kind?.toOption ≠ value.kind?.toOption then .error
  else
    match value with
    | .scalar _ => if previous.equals value then .note else .warning
    | _ => .note

theorem joined_scalar (previous : Tree) (s : Scalar) : joined previous (.scalar s) = .scalar s := by
  unfold joined
  cases previous <;> rfl

theorem kind?_joined (previous value : Tree) : (joined previous value).kind? = value.kind? := by
  cases value with
  | scalar s => rw [joined_scalar]
  | map new => cases previous <;> rfl
  | seq new => cases previous <;> rfl

theorem joined_of_kind_ne {previous value : Tree} (h : previous.kind? ≠ value.kind?) :
    joined previous value = value := by
  cases value with
  | scalar s => exact joined_scalar previous s
  | map new =>
    cases previous with
    | map old => exact absurd rfl h
    | scalar _ | seq _ => rfl
  | seq new =>
    cases previous with
    | seq old => exact absurd rfl h
    | scalar _ | map _ => rfl

/-- **One more setting of a parameter**: one message, and the values joined. -/
theorem resolveStep_eq {previous value : Tree} {k l : Kind} (hp : previous.kind? = .ok k)
    (hv : value.kind? = .ok l) (label parameter : String) :
    ∃ m, m.level = verdict previous value ∧
      resolveStep label parameter previous value = ⟨[m], .ok (joined previous value)⟩ := by
  by_cases hkl : k = l
  · -- of one kind both are mappings, both are sequences, or both are scalars
    subst hkl
    unfold resolveStep verdict
    rw [if_neg (not_not_intro (hp.trans hv.symm ▸ rfl)), hp, hv]
    simp only [ne_eq, not_true_eq_false, if_false]
    cases value with
    | map new =>
      obtain ⟨old, rfl⟩ : ∃ old, previous = .map old := ⟨_, isMap_of_kind (hp.trans hv.symm)⟩
      exact ⟨_, rfl, rfl⟩
    | seq new =>
      obtain ⟨old, rfl⟩ : ∃ old, previous = .seq old := ⟨_, isSeq_of_kind (hp.trans hv.symm)⟩
      exact ⟨_, rfl, rfl⟩
    | scalar s =>
      rw [joined_scalar]
      cases previous <;> dsimp only <;> split <;> exact ⟨_, rfl, rfl⟩
  · have hne : previous.kind? ≠ value.kind? := by
      rw [hp, hv]
      exact fun h => hkl (Except.ok.inj h)
    have hlevel : verdict previous value = .error := if_pos fun h => hkl (by
      rw [hp, hv] at h
      exact Option.some.inj h)
    unfold resolveStep
    rw [hlevel, joined_of_kind_ne hne, hp, hv]
    dsimp only
    rw [if_pos hkl]
    exact ⟨_, rfl, rfl⟩

/-- What is there is told from a value as the value before is, which it may have taken in. -/
theorem verdict_congr {held last t : Tree} (hkind : held.kind? = last.kind?)
    (hsame : ∀ s, last = .scalar s → held = last) : verdict held t = verdict last t := by
  unfold verdict
  rw [hkind]
  split
  · rfl
  · rename_i hlt
    cases t with
    | map _ | seq _ => rfl
    | scalar s =>
      cases last with
      | scalar r => rw [hsame r rfl]
      | map _ | seq _ => exact absurd (by cases s <;> simp [Tree.kind?, Tree.dataType,
          Scalar.dataType, DataType.kind?, Except.toOption]) hlt

/-! ## All values of a parameter -/

/-- The values taken in one by one. -/
def accumulated (values : List Tree) : Option Tree :=
  values.foldl (fun held t => some (held.elim t (joined · t))) none

theorem accumulated_concat (values : List Tree) (t : Tree) :
    accumulated (values ++ [t]) = some ((accumulated values).elim t (joined · t)) := by
  rw [accumulated, List.foldl_append]
  rfl

/-- What is there has the kind of the last value, and as a scalar is the last value. -/
theorem accumulated_last {values : List Tree} {last : Tree} (h : values.getLast? = some last) :
    ∃ held, accumulated values = some held ∧ held.kind? = last.kind? ∧
      ∀ s, last = .scalar s → held = last := by
  obtain ⟨front, rfl⟩ := List.getLast?_eq_some_iff.mp h
  refine ⟨_, accumulated_concat front last, ?_, fun s hs => ?_⟩
  · cases accumulated front with
    | none => rfl
    | some held => exact kind?_joined held last
  · cases accumulated front with
    | none => rfl
    | some held => exact hs ▸ joined_scalar held s

theorem combined_mapping {first : Tree} {rest : List Tree} (h : OfKind .mapping (first :: rest)) :
    combined .mapping (first :: rest) =
      some (.map ((rest.map Tree.entries).foldl (deepMerge .unite) first.entries)) := by
  cases rest with
  | nil => exact congrArg some (isMap_of_kind (h first List.mem_cons_self))
  | cons _ _ => rfl

theorem combined_scalar {kind : Kind} {run : List Tree} {t : Tree} (hm : kind ≠ .mapping)
    (hs : kind ≠ .sequence) (h : run ≠ []) : combined kind (run ++ [t]) = some t := by
  obtain ⟨first, rest, rfl⟩ := List.exists_cons_of_ne_nil h
  obtain ⟨next, others, hrest⟩ := List.exists_cons_of_ne_nil
    (List.append_ne_nil_of_right_ne_nil rest (List.cons_ne_nil t []))
  rw [List.cons_append, hrest]
  have hlast : (next :: others).getLast? = some t := by rw [← hrest, List.getLast?_concat]
  cases kind with
  | mapping => exact absurd rfl hm
  | sequence => exact absurd rfl hs
  | _ => exact hlast

/-- **One more value of a run** is joined to what the run has made. -/
theorem combined_concat {kind : Kind} {run : List Tree} {held t : Tree}
    (hrun : OfKind kind run) (hheld : combined kind run = some held) (ht : t.kind? = .ok kind) :
    combined kind (run ++ [t]) = some (joined held t) := by
  cases run with
  | nil => cases hheld
  | cons first rest =>
    by_cases hm : kind = .mapping
    · subst hm
      have hwhole : OfKind .mapping (first :: (rest ++ [t])) :=
        List.forall_mem_append.mpr ⟨hrun, List.forall_mem_singleton.mpr ht⟩
      rw [combined_mapping hrun] at hheld
      rw [List.cons_append, combined_mapping hwhole, List.map_append, List.foldl_append,
        ← Option.some.inj hheld, isMap_of_kind ht]
      rfl
    by_cases hs : kind = .sequence
    · subst hs
      have hfirst := isSeq_of_kind (hrun first List.mem_cons_self)
      have htail := isSeq_of_kind ht
      cases rest with
      | nil =>
        obtain rfl := Option.some.inj hheld
        rw [hfirst, htail]
        simp [combined, joined, Tree.asList]
      | cons next rest =>
        obtain rfl := Option.some.inj hheld
        rw [htail]
        simp only [combined, joined, List.cons_append, List.append_nil, List.flatMap_cons,
          List.flatMap_append, List.flatMap_nil, Tree.asList, unique_append_unique,
          List.append_assoc]
    · obtain ⟨s, rfl⟩ := isScalar_of_kind ht hm hs
      rw [joined_scalar]
      exact combined_scalar hm hs (List.cons_ne_nil _ _)

/-- **The values taken in one by one** are what the last run makes together. -/
theorem accumulated_lastRun {values : List Tree} (hne : values ≠ [])
    (h : ∀ t ∈ values, ∃ kind, t.kind? = .ok kind) :
    ∃ run kind, LastRun values run kind ∧ accumulated values = combined kind run := by
  induction values using List.reverseRecOn with
  | nil => exact absurd rfl hne
  | append_singleton values t ih =>
    obtain ⟨k, hk⟩ := h t (by simp)
    cases hlast : values.getLast? with
    | none =>
      obtain rfl := List.getLast?_eq_none_iff.mp hlast
      exact ⟨[t], k, .single hk, rfl⟩
    | some last =>
      have hvalues : values ≠ [] := fun hnil => by simp [hnil] at hlast
      obtain ⟨run, kind, hrun, heq⟩ := ih hvalues fun u hu => h u (List.mem_append_left _ hu)
      obtain ⟨held, hheld, hkind, -⟩ := accumulated_last hlast
      rw [accumulated_concat, hheld]
      rw [hheld] at heq
      by_cases hsame : k = kind
      · subst hsame
        exact ⟨run ++ [t], k, hrun.extend hk, (combined_concat hrun.ofKind heq.symm hk).symm⟩
      · -- the last value is of the kind of the run, so what is there is discarded
        have hother : held.kind? ≠ t.kind? := by
          rw [hkind, hrun.ofKind.last hrun.suffix hrun.nonempty hlast, hk]
          exact fun hc => hsame (Except.ok.inj hc).symm
        refine ⟨[t], k, hrun.restart hk hsame, ?_⟩
        rw [Option.elim_some, joined_of_kind_ne hother]
        rfl

/-! ## All settings -/

/-- The values that are set after the first of their parameter, each with the value before it. -/
def repeats (before : List Setting) : List Setting → List (Tree × Tree)
  | [] => []
  | s :: r =>
    ((valuesOf s.parameter before).getLast?.map fun previous => (previous, s.value)).toList ++
      repeats (before ++ [s]) r

/-- The parameters of settings, each where it comes first. -/
def parameters (settings : List Setting) : List String := (settings.map (·.parameter)).eraseDups

theorem valuesOf_concat (parameter : String) (before : List Setting) (s : Setting) :
    valuesOf parameter (before ++ [s]) =
      valuesOf parameter before ++ if s.parameter = parameter then [s.value] else [] := by
  unfold valuesOf
  rw [List.filter_append, List.map_append]
  by_cases h : s.parameter = parameter <;> simp [h]

theorem valuesOf_eq_nil {parameter : String} {settings : List Setting} :
    valuesOf parameter settings = [] ↔ parameter ∉ settings.map (·.parameter) := by
  simp [valuesOf, List.filter_eq_nil_iff]

theorem parameters_concat (before : List Setting) (s : Setting) :
    parameters (before ++ [s]) = parameters before ++
      if s.parameter ∈ before.map (·.parameter) then [] else [s.parameter] := by
  unfold parameters
  rw [List.map_append, List.eraseDups_append, List.map_singleton]
  by_cases h : s.parameter ∈ before.map (·.parameter)
  · rw [if_pos h, List.removeAll, List.filter_cons_of_neg (by simpa using h)]
    rfl
  · rw [if_neg h, List.removeAll, List.filter_cons_of_pos (by simpa using h)]
    rfl

theorem mem_parameters {settings : List Setting} {parameter : String} :
    parameter ∈ parameters settings ↔ parameter ∈ settings.map (·.parameter) :=
  List.mem_eraseDups

/-- The data after settings: their parameters in order, each with what its values have come to. -/
structure Resolved (settings : List Setting) (data : Table String Tree) : Prop where
  keys : data.keys = parameters settings
  values : ∀ parameter, data.get? parameter = accumulated (valuesOf parameter settings)

theorem Resolved.insert {before : List Setting} {data : Table String Tree} {s : Setting}
    {value : Tree} (h : Resolved before data)
    (hv : accumulated (valuesOf s.parameter before ++ [s.value]) = some value) :
    Resolved (before ++ [s]) (data.insert s.parameter value) := by
  refine ⟨?_, fun parameter => ?_⟩
  · have hcontains : data.contains s.parameter = true ↔ s.parameter ∈ before.map (·.parameter) := by
      rw [← mem_parameters, ← h.keys, Table.contains_iff]
      simp [Table.keys]
    rw [Table.keys_insert, parameters_concat, h.keys]
    by_cases hin : s.parameter ∈ before.map (·.parameter)
    · rw [if_pos (hcontains.mpr hin), if_pos hin, List.append_nil]
    · rw [if_neg (mt hcontains.mp hin), if_neg hin]
  · rw [Table.get?_insert, valuesOf_concat]
    by_cases hp : s.parameter = parameter
    · subst hp
      rw [if_pos BEq.rfl, if_pos rfl, hv]
    · rw [if_neg (by simpa using hp), if_neg hp, List.append_nil, h.values]

/-- **One more setting.** -/
theorem resolveSetting_resolved (label : String) {before : List Setting} {data : Table String Tree}
    {s : Setting} (h : Resolved before data)
    (hkinds : ∀ r ∈ before ++ [s], ∃ kind, r.value.kind? = .ok kind) :
    ∃ ms next, resolveSetting label data s = ⟨ms, .ok next⟩ ∧ Resolved (before ++ [s]) next ∧
      ms.map (·.level) = ((valuesOf s.parameter before).getLast?.map
        fun previous => verdict previous s.value).toList := by
  unfold resolveSetting
  rw [h.values]
  cases hlast : (valuesOf s.parameter before).getLast? with
  | none =>
    have hfirst : valuesOf s.parameter before = [] := List.getLast?_eq_none_iff.mp hlast
    rw [hfirst]
    exact ⟨[], _, rfl, h.insert (by rw [hfirst]; rfl), rfl⟩
  | some last =>
    obtain ⟨held, hheld, hkind, hsame⟩ := accumulated_last hlast
    obtain ⟨r, hr, rfl⟩ : ∃ r ∈ before, r.value = last := by
      obtain ⟨r, hr, heq⟩ := List.mem_map.mp (List.mem_of_getLast? hlast)
      exact ⟨r, (List.mem_filter.mp hr).1, heq⟩
    obtain ⟨k, hk⟩ := hkinds r (List.mem_append_left _ hr)
    obtain ⟨l, hl⟩ := hkinds s (by simp)
    obtain ⟨m, hlevel, hstep⟩ := resolveStep_eq (hkind.trans hk) hl label s.parameter
    rw [hheld]
    dsimp only
    rw [hstep]
    -- the message is about what is held, which stands for the value before
    refine ⟨[m], data.insert s.parameter (joined held s.value), rfl, h.insert ?_, ?_⟩
    · rw [accumulated_concat, hheld]
      rfl
    · rw [List.map_singleton, hlevel, verdict_congr hkind hsame]
      rfl

/-- **All settings**, from some on. -/
theorem fold_resolved (label : String) :
    ∀ (rest : List Setting) {before : List Setting} {data : Table String Tree},
    Resolved before data → (∀ r ∈ before ++ rest, ∃ kind, r.value.kind? = .ok kind) →
    ∃ ms result, Logged.fold rest data (resolveSetting label) = ⟨ms, .ok result⟩ ∧
      Resolved (before ++ rest) result ∧
      ms.map (·.level) = (repeats before rest).map fun r => verdict r.1 r.2
  | [], before, data, h, _ => ⟨[], data, rfl, by rwa [List.append_nil], rfl⟩
  | s :: rest, before, data, h, hkinds => by
    have hsplit : before ++ s :: rest = (before ++ [s]) ++ rest := by simp
    rw [hsplit] at hkinds ⊢
    obtain ⟨ms, next, hstep, hnext, hlevels⟩ := resolveSetting_resolved label h
      fun r hr => hkinds r (List.mem_append_left _ hr)
    obtain ⟨more, result, hrest, hresult, hlater⟩ := fold_resolved label rest hnext hkinds
    refine ⟨ms ++ more, result, ?_, hresult, ?_⟩
    · rw [Logged.fold, hstep, Logged.andThen]
      dsimp only
      rw [hrest]
    · rw [List.map_append, hlevels, hlater, repeats, List.map_append]
      cases (valuesOf s.parameter before).getLast? <;> rfl

/-- Every setting is the first of its parameter or repeats it. -/
theorem length_repeats : ∀ (rest before : List Setting),
    (repeats before rest).length + (parameters (before ++ rest)).length =
      rest.length + (parameters before).length
  | [], before => by simp [repeats]
  | s :: rest, before => by
    have hrest := length_repeats rest (before ++ [s])
    have hsplit : before ++ s :: rest = (before ++ [s]) ++ rest := by simp
    rw [parameters_concat, List.length_append] at hrest
    rw [hsplit, repeats, List.length_append, List.length_cons]
    by_cases hin : s.parameter ∈ before.map (·.parameter)
    · have hsome : valuesOf s.parameter before ≠ [] := fun h => valuesOf_eq_nil.mp h hin
      rw [if_pos hin, List.length_nil] at hrest
      rw [List.getLast?_eq_some_getLast hsome, Option.map_some, Option.toList_some,
        List.length_singleton]
      omega
    · rw [if_neg hin, List.length_singleton] at hrest
      rw [valuesOf_eq_nil.mpr hin, List.getLast?_nil, Option.map_none, Option.toList_none,
        List.length_nil]
      omega

theorem length_textsAt (ms : List Message) :
    (Message.textsAt .error ms).length + (Message.textsAt .warning ms).length +
      (Message.textsAt .note ms).length = ms.length := by
  induction ms with
  | nil => rfl
  | cons m ms ih =>
    obtain ⟨level, text⟩ := m
    have hcons : ∀ l, (Message.textsAt l (⟨level, text⟩ :: ms)).length =
        (Message.textsAt l ms).length + if level = l then 1 else 0 := fun l => by
      by_cases h : level = l <;> simp [Message.textsAt, h]
    rw [hcons, hcons, hcons, List.length_cons, ← ih]
    cases level <;> simp <;> omega

/-- **Resolving settings with checked values.** It ends; the data have the parameters of the
settings, each where it comes first; the value of a parameter is what the last run of its own values
makes together; and each setting after the first of its parameter gets one message, as its value and
the value before it demand. -/
theorem resolve_runs (profile : Scalar) (context : Tree) {settings : List Setting}
    (h : ∀ s ∈ settings, s.value.check = .ok ()) :
    ∃ data, (resolve profile context settings).outcome = .ok data ∧
      data.keys = (settings.map (·.parameter)).eraseDups ∧
      (∀ parameter ∈ settings.map (·.parameter), ∃ run kind,
        LastRun (valuesOf parameter settings) run kind ∧
        data.get? parameter = combined kind run) ∧
      (resolve profile context settings).messages.map (·.level) =
        (repeats [] settings).map (fun r => verdict r.1 r.2) ∧
      (Message.textsAt .error (resolve profile context settings).messages).length +
        (Message.textsAt .warning (resolve profile context settings).messages).length +
        (Message.textsAt .note (resolve profile context settings).messages).length +
        (settings.map (·.parameter)).eraseDups.length = settings.length := by
  have hkinds : ∀ s ∈ settings, ∃ kind, s.value.kind? = .ok kind := fun s hs =>
    (Tree.knownNode_of_check (h s hs)).kind
  have hstart : Resolved [] [] := ⟨rfl, fun _ => rfl⟩
  obtain ⟨ms, data, hrun, hdata, hlevels⟩ := fold_resolved
    (profile.text ++ " " ++ describeContext context) settings hstart hkinds
  have hresolve : resolve profile context settings = ⟨ms, .ok data⟩ := hrun
  rw [List.nil_append] at hdata
  rw [hresolve]
  refine ⟨data, rfl, hdata.keys, fun parameter hp => ?_, hlevels, ?_⟩
  · have hne : valuesOf parameter settings ≠ [] := fun hnil => valuesOf_eq_nil.mp hnil hp
    rw [hdata.values]
    refine accumulated_lastRun hne fun t ht => ?_
    obtain ⟨s, hs, rfl⟩ := List.mem_map.mp ht
    exact hkinds s ((List.mem_filter.mp hs).1)
  · have hlength : ms.length = (repeats [] settings).length := by
      rw [← List.length_map (·.level), hlevels, List.length_map]
    rw [length_textsAt, hlength]
    exact length_repeats settings []

/-- The ports are a list, then a text, then a list again; a name is set in between. -/
def portSettings : List Setting := [
  ⟨"ports", .seq [.int 1, .int 2]⟩, ⟨"name", .str "a"⟩, ⟨"ports", .str "all"⟩,
  ⟨"ports", .seq [.int 3]⟩, ⟨"name", .str "b"⟩, ⟨"ports", .seq [.int 4, .int 3]⟩]

/-- The list before the text is discarded, and the two lists after it are united. -/
theorem resolve_runs_restart :
    (∀ s ∈ portSettings, s.value.check = .ok ()) ∧
    ∃ data, (resolve (.str "base") .null portSettings).outcome = .ok data ∧
      data.keys = ["ports", "name"] ∧
      data.get? "ports" = some (.seq [.int 3, .int 4]) ∧
      (resolve (.str "base") .null portSettings).messages.map (·.level) =
        [.error, .error, .warning, .note] := by
  have hchecked : ∀ s ∈ portSettings, s.value.check = .ok () := by
    simp only [portSettings, List.forall_mem_cons]
    exact ⟨rfl, rfl, rfl, rfl, rfl, rfl, fun _ h => absurd h List.not_mem_nil⟩
  obtain ⟨data, hdata, hkeys, hvalues, hlevels, -⟩ := resolve_runs (.str "base") .null hchecked
  obtain ⟨run, kind, hrun, hports⟩ := hvalues "ports" List.mem_cons_self
  have hlast : LastRun (valuesOf "ports" portSettings)
      [.seq [.int 3], .seq [.int 4, .int 3]] .sequence :=
    (((LastRun.single (t := .seq [.int 1, .int 2]) rfl).restart (t := .str "all") rfl
      (by decide)).restart (t := .seq [.int 3]) rfl (by decide)).extend rfl
  obtain ⟨rfl, rfl⟩ := hrun.unique hlast
  exact ⟨hchecked, data, hdata, hkeys, hports, hlevels⟩

end Compliance
