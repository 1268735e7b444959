import Compliance.Proofs.SchemaVerdicts
import Compliance.Proofs.WrittenValues

/-! # What linting a document adds

The rules for sections may stop, and a fault that stops them is reported behind what was found. So a
run settles a property when it ends with nothing recorded exactly if the property holds.

* `Logged.Settles`: what a run settles; `andThen`, `each`, `demand` put runs together.
* `documentRule_settles`: the rules for a document settle whether it conforms.
* `lintDocument_settles`: so do the findings, the fault included.
* `lintDocument_adds`: nothing is added to errors and warnings exactly if the document conforms, and
  nothing is ever added to notes.
-/

namespace Compliance

open Schema

/-! ## Runs of rules -/

/-- The run settles `P`: it ends with nothing recorded exactly if `P` holds, and records no note. -/
structure Logged.Settles {ε : Type} (run : Logged ε Unit) (P : Prop) : Prop where
  clean_iff : run.messages = [] ∧ run.outcome = .ok () ↔ P
  noNote : ∀ m ∈ run.messages, m.level ≠ .note

namespace Logged.Settles

variable {ε : Type} {P Q : Prop}

theorem congr {run : Logged ε Unit} (h : run.Settles P) (hpq : P ↔ Q) : run.Settles Q :=
  ⟨h.clean_iff.trans hpq, h.noNote⟩

/-- Findings that settle a property do so when they are said. -/
theorem say {findings : List Finding} (h : Schema.Settles findings P) :
    (Compliance.say {} findings).Settles P := by
  rw [say_unlimited]
  refine ⟨(and_iff_left rfl).trans (List.map_eq_nil_iff.trans h.eq_nil_iff), fun m hm => ?_⟩
  obtain ⟨f, hf, rfl⟩ := List.mem_map.mp hm
  exact h.noNote f hf

theorem done : (Logged.done () : Logged ε Unit).Settles True :=
  ⟨iff_of_true ⟨rfl, rfl⟩ trivial, fun _ h => absurd h List.not_mem_nil⟩

theorem stop (e : ε) : (Logged.stop e : Logged ε Unit).Settles False :=
  ⟨iff_of_false (fun h => nomatch h.2) id, fun _ h => absurd h List.not_mem_nil⟩

theorem andThen {run next : Logged ε Unit} (hr : run.Settles P) (hn : next.Settles Q) :
    (run.andThen fun _ => next).Settles (P ∧ Q) where
  clean_iff := by
    rw [← hr.clean_iff, ← hn.clean_iff]
    unfold Logged.andThen
    split
    · rename_i e he
      simp [he]
    · rename_i u hu
      simp only [List.append_eq_nil_iff, hu, and_true]
      exact and_assoc
  noNote m hm := by
    rcases mem_andThen hm with hrun | ⟨-, -, hnext⟩
    · exact hr.noNote m hrun
    · exact hn.noNote m hnext

theorem each {α : Type} {action : α → Logged ε Unit} {P : α → Prop} : ∀ {items : List α},
    (∀ x ∈ items, (action x).Settles (P x)) → (Logged.each items action).Settles (∀ x ∈ items, P x)
  | [], _ => done.congr (iff_of_true trivial fun _ hx => absurd hx List.not_mem_nil)
  | x :: items, h => by
    have hrest : (Logged.each items action).Settles (∀ x ∈ items, P x) :=
      each fun y hy => h y (List.mem_cons_of_mem _ hy)
    exact ((h x List.mem_cons_self).andThen hrest).congr List.forall_mem_cons.symm

/-- A node that has to be a mapping stops the run if it is none. -/
theorem demand {run : Mapping → Logged RuleFault Unit} {P : Mapping → Prop}
    (h : ∀ m, (run m).Settles (P m)) (what : Wording) (t : Tree) :
    ((Schema.demand {} what t).andThen run).Settles (MappingIn P t) := by
  rw [demand_of_sayable what.fault?_unlimited]
  cases t with
  | map m => exact h m
  | seq items => exact stop _
  | scalar s =>
    have hshape : (Tree.scalar s).isMap = false := rfl
    obtain ⟨e, he⟩ := asMapping_of_not_isMap hshape what.text
    rw [he]
    exact stop _

end Logged.Settles

/-! ## The rules for a document -/

namespace Schema

theorem sectionRule_settles {fields : Scalar → Mapping → List Finding} {P : Mapping → Prop}
    (h : ∀ name m, Settles (fields name m) (P m)) (what entryWhat : String) (t : Tree) :
    (sectionRule what entryWhat fields t).Settles (SectionOf P t) :=
  .demand (fun _ => .each fun e _ => .demand (fun m => .say (h e.1 m)) _ _) _ _

theorem checksRule_settles (file : String) (t : Tree) :
    (checksRule file t).Settles (SectionOf (Check (file = "merged data")) t) := by
  refine .demand (fun m => .say (.flatMap fun e _ => ?_)) _ _
  have h := checkRule_settles file (decide (file = mergedName)) e.1 e.2
  rwa [decide_eq_true_eq] at h

theorem sectionIfSet_settles {rule : Tree → Logged RuleFault Unit} {P : Tree → Prop}
    (h : ∀ t, (rule t).Settles (P t)) (m : Mapping) (name : String) :
    (sectionIfSet m name rule).Settles (Settable m name P) := by
  unfold sectionIfSet Settable
  cases Tree.field? m name with
  | none => exact Logged.Settles.done.congr (by simp)
  | some value =>
    dsimp only
    split
    · rename_i hset
      refine (h value).congr ?_
      have hne := isSet_iff.mp hset
      simp [hne]
    · rename_i hset
      have hunset := not_isSet_iff.mp (Bool.eq_false_iff.mpr hset)
      exact Logged.Settles.done.congr (by simp [hunset])

theorem versionRule_settles (file : String) (m : Mapping) :
    Settles (versionRule file m) (Required m "version" (· = .str "2.0.0")) := by
  refine .failUnless _ ?_
  unfold Required
  cases Tree.field? m "version" with
  | none => simp
  | some t => simp [equals_str, version]

/-- **The rules for a document settle whether it conforms.** -/
theorem documentRule_settles (file : String) (t : Tree) :
    (documentRule file t).Settles (Conforms (file = "merged data") t) := by
  refine .demand (fun m => ?_) _ _
  have hhead : Settles (versionRule file m ++ keysRule file m)
      (Required m "version" (· = .str "2.0.0") ∧
        OnlyKeys ["version", "profiles", "ce", "checks", "controls"] m) :=
    (versionRule_settles file m).append (knownKeys_settles file topLevelKeys m)
  have hprofiles := sectionIfSet_settles (sectionRule_settles (profileFieldsRule_settles file)
    "profiles" "profile") m "profiles"
  have hce :=
    sectionIfSet_settles (sectionRule_settles (ceFieldsRule_settles file) "ce" "CE") m "ce"
  have hchecks := sectionIfSet_settles (checksRule_settles file) m "checks"
  have hcontrols := sectionIfSet_settles
    (fun value => Logged.Settles.say (controlsRule_settles file value)) m "controls"
  refine ((Logged.Settles.say hhead).andThen
    (hprofiles.andThen (hce.andThen (hchecks.andThen hcontrols)))).congr ?_
  exact ⟨fun ⟨⟨version, keys⟩, profiles, ce, checks, controls⟩ =>
      ⟨version, keys, profiles, ce, checks, controls⟩,
    fun ⟨version, keys, profiles, ce, checks, controls⟩ =>
      ⟨⟨version, keys⟩, profiles, ce, checks, controls⟩⟩

end Schema

/-! ## Findings -/

/-- **The findings about a document settle whether it conforms**, the fault included. -/
theorem lintDocument_settles (file : String) (t : Tree) :
    (lintDocument file t = [] ↔ Conforms (file = "merged data") t) ∧
      ∀ m ∈ lintDocument file t, m.level ≠ .note := by
  have h := documentRule_settles file t
  have hclean := h.clean_iff
  unfold lintDocument
  dsimp only
  split
  · rename_i hok
    exact ⟨(and_iff_left hok).symm.trans hclean, h.noNote⟩
  · rename_i e he
    have hstopped : ¬ Conforms (file = "merged data") t := fun hp =>
      nomatch he.symm.trans (hclean.mpr hp).2
    refine ⟨iff_of_false (fun hnil => ?_) hstopped, fun m hm => ?_⟩
    · exact List.cons_ne_nil _ _ (List.append_eq_nil_iff.mp hnil).2
    · rcases List.mem_append.mp hm with hrun | hfault
      · exact h.noNote m hrun
      · obtain rfl := List.mem_singleton.mp hfault
        exact Level.noConfusion

/-- Messages that are no notes leave errors and warnings as they are exactly if there are none. -/
theorem Diagnostics.addAll_settled {ms : List Message} (hnote : ∀ m ∈ ms, m.level ≠ .note)
    (d : Diagnostics) :
    ((d.addAll ms).errors = d.errors ∧ (d.addAll ms).warnings = d.warnings ↔ ms = []) ∧
      (d.addAll ms).notes = d.notes := by
  have hlevel : ∀ level, (d.addAll ms).atLevel level = d.atLevel level ↔
      ∀ m ∈ ms, m.level ≠ level := fun level => by
    rw [Diagnostics.atLevel_addAll, List.append_right_eq_self, textsAt_eq_nil]
  refine ⟨?_, (hlevel .note).mpr hnote⟩
  refine (and_congr (hlevel .error) (hlevel .warning)).trans ⟨fun ⟨he, hw⟩ => ?_, ?_⟩
  · refine List.eq_nil_iff_forall_not_mem.mpr fun m hm => ?_
    cases hl : m.level with
    | error => exact he m hm hl
    | warning => exact hw m hm hl
    | note => exact hnote m hm hl
  · rintro rfl
    exact ⟨fun _ hm => absurd hm List.not_mem_nil, fun _ hm => absurd hm List.not_mem_nil⟩

/-- **Linting a document** adds no error and no warning exactly if the document conforms to the
schema, and never adds a note. -/
theorem lintDocument_adds (d : Diagnostics) (file : String) (t : Tree) :
    ((d.addAll (lintDocument file t)).errors = d.errors ∧
        (d.addAll (lintDocument file t)).warnings = d.warnings ↔
      Conforms (file = "merged data") t) ∧
    (d.addAll (lintDocument file t)).notes = d.notes := by
  obtain ⟨hnil, hnote⟩ := lintDocument_settles file t
  rw [← hnil]
  exact d.addAll_settled hnote

/-- A check without settings is fine in a part of the data, and is missing them in the whole. -/
example :
    let t := Tree.map [(.str "version", .str "2.0.0"), (.str "checks", .map [(.str "a", .map [])])]
    lintDocument "a.yaml" t = [] ∧
      lintDocument "merged data" t = [.error "merged data (check 'a'): unknown type ''",
        .error "merged data (check 'a'): missing settings"] := by
  decide +kernel

end Compliance
