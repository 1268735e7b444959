import Compliance.Lint
import Compliance.Proofs.FindingTexts
import Compliance.Proofs.WrittenValues
import Mathlib.Data.List.Basic

/-! # Where the rules for a document stop

The rules for a document are a row of inspections: a node has to be a mapping, or a finding is
recorded. The row stops at the first node that is no mapping, or where the place of a node or a
finding shows a value that cannot be written out. What stops it is reported behind what was found
before.

* `Schema.Inspection`, `Schema.inspections`: the row for a document, as if nothing could stop it.
* `Schema.documentRule_eq`: the rules for a document run through the row.
* `Schema.stuck_inspections`: the documents with a node that stops it; `Schema.Unsayable`: those
  with a value that does.
* `lintDocument_of_cut`, `lintDocument_of_all`: the findings about a document that stops its rules,
  and about any other.
* `lintDocument_stops`: both together, with the texts of the findings.
-/

namespace Compliance

namespace Schema

/-- A step of the rules: a node has to be a mapping, or a finding is recorded. -/
inductive Inspection where
  | demand (what : Wording) (node : Tree)
  | record (finding : Finding)

namespace Inspection

/-- The place of the node, or the finding. -/
def wording : Inspection → Wording
  | .demand what _ => what
  | .record f => f.wording

/-- What a step that does not stop the rules adds. -/
def said : Inspection → List Message
  | .demand _ _ => []
  | .record f => [f.message]

/-- The step finds a node that is no mapping. -/
def Misshapen : Inspection → Prop
  | .demand _ node => node.isMap = false
  | .record _ => False

/-- What stops the rules in a step. -/
def fault? (limits : Limits) : Inspection → Option RuleFault
  | .demand what node =>
    match what.fault? limits, node.asMapping what.text with
    | some e, _ => some (.text e)
    | none, .error e => some (.kind e)
    | none, .ok _ => none
  | .record f => (f.wording.fault? limits).map .text

def run (limits : Limits) : Inspection → Logged RuleFault Unit
  | .demand what node => (Schema.demand limits what node).andThen fun _ => .done ()
  | .record f => say limits [f]

end Inspection

/-! ## The inspections of a document -/

/-- The value of a section that is neither null nor false. -/
def setSection (document : Mapping) (name : String) : Option Tree :=
  (Tree.field? document name).filter Tree.isSet

def sectionInspections (what entryWhat : String) (fields : Scalar → Mapping → List Finding)
    (value : Tree) : List Inspection :=
  .demand what value :: value.entries.flatMap fun e =>
    .demand [.fixed (entryWhat ++ " '"), .plain e.1, .fixed "'"] e.2 ::
      (fields e.1 e.2.entries).map .record

/-- The checks, whose entries stop nothing. -/
def checksInspections (file : String) (value : Tree) : List Inspection :=
  .demand "checks" value :: (value.entries.flatMap fun e =>
    checkRule file (decide (file = "merged data")) e.1 e.2).map .record

/-- The inspections of the entries of a document, section by section. -/
def rootInspections (file : String) (document : Mapping) : List Inspection :=
  let inSection name (steps : Tree → List Inspection) :=
    (setSection document name).toList.flatMap steps
  (versionRule file document ++ keysRule file document).map .record ++
  inSection "profiles" (sectionInspections "profiles" "profile" (profileFieldsRule file)) ++
  inSection "ce" (sectionInspections "ce" "CE" (ceFieldsRule file)) ++
  inSection "checks" (checksInspections file) ++
  inSection "controls" fun value => (controlsRule file value).map .record

/-- **The inspections of a document** in order. -/
def inspections (file : String) (t : Tree) : List Inspection :=
  .demand "document root" t :: rootInspections file t.entries

/-- The section is set and no mapping, or an entry of it is none. -/
def StopsIn (document : Mapping) (name : String) : Prop :=
  ∃ value, setSection document name = some value ∧
    (value.isMap = false ∨ ∃ e ∈ value.entries, e.2.isMap = false)

/-- **The documents whose shape stops the rules.** -/
def StopsRules (t : Tree) : Prop :=
  t.isMap = false ∨ StopsIn t.entries "profiles" ∨ StopsIn t.entries "ce" ∨
    ∃ value, setSection t.entries "checks" = some value ∧ value.isMap = false

/-- **The documents with a value that stops the rules**: a place or a finding has to show it, and it
cannot be written out. -/
def Unsayable (limits : Limits) (file : String) (t : Tree) : Prop :=
  ∃ step ∈ inspections file t, step.wording.fault? limits ≠ none

/-! ## Runs through a row -/

open Logged (each)

variable {limits : Limits}

/-- A node that has to be a mapping, and a run that goes on with its entries. -/
theorem demand_run (what : Wording) (node : Tree) (rest : Mapping → List Inspection) :
    ((demand limits what node).andThen fun entries => each (rest entries) (Inspection.run limits)) =
      each (.demand what node :: rest node.entries) (Inspection.run limits) := by
  rw [each, Inspection.run]
  unfold demand
  cases spell limits what with
  | error e => rfl
  | ok place =>
    cases hmap : node.isMap with
    | true =>
      simp only [asMapping_of_isMap hmap]
      rfl
    | false =>
      obtain ⟨e, he⟩ := asMapping_of_not_isMap hmap place
      simp only [Logged.andThen, Logged.ofExcept, he]
      rfl

theorem say_eq (findings : List Finding) (limits : Limits) :
    say limits findings = each (findings.map Inspection.record) (Inspection.run limits) := by
  rw [Logged.each_map]
  unfold say
  congr 1
  funext f
  exact (Logged.andThen_done _).symm

theorem sectionRule_eq (what entryWhat : String) (fields : Scalar → Mapping → List Finding)
    (value : Tree) (limits : Limits) :
    sectionRule what entryWhat fields value limits =
      each (sectionInspections what entryWhat fields value) (Inspection.run limits) := by
  unfold sectionRule sectionInspections
  rw [← demand_run _ value fun entries => entries.flatMap fun e =>
    .demand [.fixed (entryWhat ++ " '"), .plain e.1, .fixed "'"] e.2 ::
      (fields e.1 e.2.entries).map .record]
  congr 1
  funext entries
  rw [Logged.each_flatMap]
  congr 1
  funext ⟨name, body⟩
  dsimp only
  rw [← demand_run _ body fun inner => (fields name inner).map .record]
  congr 1
  funext inner
  exact say_eq _ limits

theorem checksRule_eq (file : String) (value : Tree) (limits : Limits) :
    checksRule file value limits = each (checksInspections file value) (Inspection.run limits) := by
  unfold checksRule checksInspections
  rw [← demand_run _ value fun entries => (entries.flatMap fun e =>
    checkRule file (decide (file = "merged data")) e.1 e.2).map .record]
  congr 1
  funext entries
  exact say_eq _ limits

theorem sectionIfSet_eq {rule : Tree → Logged RuleFault Unit} {steps : Tree → List Inspection}
    (h : ∀ value, rule value = each (steps value) (Inspection.run limits)) (document : Mapping)
    (name : String) :
    sectionIfSet document name rule =
      each ((setSection document name).toList.flatMap steps) (Inspection.run limits) := by
  unfold sectionIfSet setSection
  cases Tree.field? document name with
  | none => rfl
  | some value =>
    rw [Option.filter_some]
    dsimp only
    split
    · simp [h]
    · rfl

/-- **The rules for a document run through the row.** -/
theorem documentRule_eq (file : String) (t : Tree) :
    documentRule file t limits = each (inspections file t) (Inspection.run limits) := by
  unfold documentRule inspections
  rw [← demand_run _ t (rootInspections file)]
  congr 1
  funext document
  have hprofiles := sectionIfSet_eq
    (fun value => sectionRule_eq "profiles" "profile" (profileFieldsRule file) value limits)
    document "profiles"
  have hce := sectionIfSet_eq
    (fun value => sectionRule_eq "ce" "CE" (ceFieldsRule file) value limits)
    document "ce"
  have hchecks := sectionIfSet_eq (fun value => checksRule_eq file value limits) document "checks"
  have hcontrols := sectionIfSet_eq (fun value => say_eq (controlsRule file value) limits) document
    "controls"
  unfold rootInspections
  simp only [Logged.each_append, ← say_eq, ← hprofiles, ← hce, ← hchecks, ← hcontrols,
    Logged.andThen_assoc]
  rfl

/-! ## Stopping -/

/-- A step that nothing stops says what it has to say, and any other says nothing. -/
theorem run_eq (step : Inspection) :
    step.run limits = match step.fault? limits with
      | some e => ⟨[], .error e⟩
      | none => ⟨step.said, .ok ()⟩ := by
  cases step with
  | demand what node =>
    cases hwhat : Wording.fault? limits what with
    | some e =>
      simp [Inspection.run, Inspection.fault?, demand, spell, hwhat, Logged.ofExcept,
        Logged.andThen]
    | none =>
      cases hmap : node.asMapping (Wording.text what) <;>
        simp [Inspection.run, Inspection.fault?, Inspection.said, demand, spell, hwhat, hmap,
          Logged.ofExcept, Logged.andThen, Logged.done, Except.mapError]
  | record f =>
    cases hfault : Wording.fault? limits f.wording <;>
      simp [Inspection.run, Inspection.fault?, Inspection.said, say, spell, hfault, Logged.each,
        Logged.ofExcept, Logged.andThen, Logged.done, Logged.log, Finding.message, Finding.text]

/-- A step is stopped by a node of the wrong shape, or by a value that it would have to show. -/
theorem fault?_ne_none {step : Inspection} :
    step.fault? limits ≠ none ↔ step.Misshapen ∨ step.wording.fault? limits ≠ none := by
  cases step with
  | record f => simp [Inspection.fault?, Inspection.Misshapen, Inspection.wording]
  | demand what node =>
    cases hwhat : Wording.fault? limits what with
    | some e => simp [Inspection.fault?, Inspection.wording, hwhat]
    | none =>
      cases hmap : node.isMap with
      | true =>
        simp [Inspection.fault?, Inspection.Misshapen, Inspection.wording, hwhat, hmap,
          asMapping_of_isMap hmap]
      | false =>
        obtain ⟨e, he⟩ := asMapping_of_not_isMap hmap (Wording.text what)
        simp [Inspection.fault?, Inspection.Misshapen, hwhat, hmap, he]

/-- A row with a node of the wrong shape. -/
def Stuck (steps : List Inspection) : Prop := ∃ step ∈ steps, step.Misshapen

instance : DecidablePred Inspection.Misshapen
  | .demand _ node => inferInstanceAs (Decidable (node.isMap = false))
  | .record _ => .isFalse id

instance : DecidablePred Stuck := fun steps =>
  inferInstanceAs (Decidable (∃ step ∈ steps, step.Misshapen))

@[simp] theorem stuck_demand (what : Wording) (node : Tree) (steps : List Inspection) :
    Stuck (.demand what node :: steps) ↔ node.isMap = false ∨ Stuck steps := by
  simp [Stuck, Inspection.Misshapen]

@[simp] theorem stuck_append (xs ys : List Inspection) :
    Stuck (xs ++ ys) ↔ Stuck xs ∨ Stuck ys := by
  simp [Stuck, or_and_right, exists_or]

@[simp] theorem stuck_flatMap {α : Type} (items : List α) (steps : α → List Inspection) :
    Stuck (items.flatMap steps) ↔ ∃ x ∈ items, Stuck (steps x) := by
  induction items with
  | nil => simp [Stuck]
  | cons x items ih => simp [ih]

/-- Findings are of no shape. -/
@[simp] theorem not_stuck_map_record (findings : List Finding) :
    ¬ Stuck (findings.map .record) := by
  simp [Stuck, Inspection.Misshapen]

theorem stuck_sectionInspections {what entryWhat : String}
    {fields : Scalar → Mapping → List Finding} {value : Tree} :
    Stuck (sectionInspections what entryWhat fields value) ↔
      value.isMap = false ∨ ∃ e ∈ value.entries, e.2.isMap = false := by
  simp [sectionInspections]

theorem stuck_checksInspections {file : String} {value : Tree} :
    Stuck (checksInspections file value) ↔ value.isMap = false := by
  simp [checksInspections]

/-- **The documents whose shape stops the rules** are those with a step that finds it. -/
theorem stuck_inspections {file : String} {t : Tree} :
    Stuck (inspections file t) ↔ StopsRules t := by
  simp [inspections, rootInspections, stuck_sectionInspections, stuck_checksInspections, StopsRules,
    StopsIn]

/-- A document stops its rules by its shape or by a value. -/
theorem stops_iff {file : String} {t : Tree} :
    (∃ step ∈ inspections file t, step.fault? limits ≠ none) ↔
      StopsRules t ∨ Unsayable limits file t := by
  have hshape : Stuck (inspections file t) ↔ StopsRules t := stuck_inspections
  rw [← hshape]
  simp only [fault?_ne_none, Stuck, Unsayable, and_or_left, exists_or]

/-! ## What the steps say -/

/-- The place shows values of the document only, and the finding is ordinary. -/
def Inspection.Worded (file : String) (root : Tree) : Inspection → Prop
  | .demand what _ => ∀ p ∈ what, p.From root
  | .record f => Ordinary file root f.wording

/-- All steps of a row say what they should. -/
def AllWorded (file : String) (root : Tree) (steps : List Inspection) : Prop :=
  ∀ step ∈ steps, step.Worded file root

namespace AllWorded

variable {file : String} {root : Tree} {steps : List Inspection}

theorem demand {what : Wording} (hwhat : ∀ p ∈ what, p.From root) (node : Tree)
    (h : AllWorded file root steps) : AllWorded file root (.demand what node :: steps) :=
  List.forall_mem_cons.mpr ⟨hwhat, h⟩

theorem record {findings : List Finding} (h : Worded file root findings) :
    AllWorded file root (findings.map .record) := List.forall_mem_map.mpr h

theorem append {more : List Inspection} (h : AllWorded file root steps)
    (h' : AllWorded file root more) : AllWorded file root (steps ++ more) :=
  List.forall_mem_append.mpr ⟨h, h'⟩

theorem flatMap {α : Type} {items : List α} {steps : α → List Inspection}
    (h : ∀ x ∈ items, AllWorded file root (steps x)) :
    AllWorded file root (items.flatMap steps) := by
  intro step hstep
  obtain ⟨x, hx, hin⟩ := List.mem_flatMap.mp hstep
  exact h x hx step hin

end AllWorded

open Compliance.Tree (Within)

section
variable {file : String} {root value : Tree} (hvalue : Within value root)
include hvalue

theorem worded_sectionInspections (what : String) {entryWhat : String}
    {fields : Scalar → Mapping → List Finding} (hempty : ∀ name, fields name [] = [])
    (h : ∀ {name m}, root.Holds (.scalar name) → Within (.map m) root →
      Worded file root (fields name m)) :
    AllWorded file root (sectionInspections what entryWhat fields value) := by
  refine .demand (by simp) _ (.flatMap fun e he => ?_)
  cases value with
  | scalar s => cases he
  | seq items => cases he
  | map m =>
    have hkey : root.Holds (.scalar e.1) := hvalue.key he
    refine .demand (by simp [hkey]) _ (.record ?_)
    obtain ⟨name, body⟩ := e
    cases body with
    | map inner => exact h hkey (hvalue.value he)
    | scalar s => exact hempty name ▸ Worded.nil
    | seq items => exact hempty name ▸ Worded.nil

theorem worded_checksInspections : AllWorded file root (checksInspections file value) := by
  refine .demand (by simp) _ (.record (.flatMap fun e he => ?_))
  cases value with
  | scalar s => cases he
  | seq items => cases he
  | map m => exact worded_checkRule _ (hvalue.key he) (hvalue.value he)

end

theorem worded_setSection {file : String} {root : Tree} {document : Mapping}
    (hm : Within (.map document) root) {steps : Tree → List Inspection}
    (h : ∀ {value}, Within value root → AllWorded file root (steps value)) (name : String) :
    AllWorded file root ((setSection document name).toList.flatMap steps) := by
  refine .flatMap fun value hvalue => h ?_
  have hset : setSection document name = some value := Option.mem_toList.mp hvalue
  exact hm.field (Option.filter_eq_some_iff.mp hset).1

/-- **All steps for a document say what they should.** -/
theorem worded_inspections (file : String) (t : Tree) : AllWorded file t (inspections file t) := by
  refine .demand (by simp) t ?_
  have hother : AllWorded file t (rootInspections file []) := by
    have hnone : ∀ name, setSection [] name = none := fun _ => rfl
    have hhead : Worded file t (versionRule file [] ++ keysRule file []) :=
      (worded_versionRule []).append .nil
    simpa [rootInspections, hnone] using AllWorded.record hhead
  cases t with
  | scalar s => exact hother
  | seq items => exact hother
  | map m =>
    have hm : Within (.map m) (.map m) := .here
    exact AllWorded.record ((worded_versionRule m).append (worded_keysRule hm))
      |>.append (worded_setSection hm
        (worded_sectionInspections · "profiles" (fun _ => rfl)
          fun hname hbody => worded_profileFieldsRule hname hbody) "profiles")
      |>.append (worded_setSection hm
        (worded_sectionInspections · "ce" (fun _ => rfl)
          fun hname hbody => worded_ceFieldsRule hname hbody) "ce")
      |>.append (worded_setSection hm worded_checksInspections "checks")
      |>.append (worded_setSection hm
        (fun hvalue => .record (worded_switchesRule hvalue _ _ _)) "controls")

theorem not_unsayable {file : String} {t : Tree} (h : t.fault? limits 0 = none) :
    ¬ Unsayable limits file t := by
  rintro ⟨step, hstep, hfault⟩
  refine hfault (Wording.fault?_eq_none.mpr fun p hp => ?_)
  have hfrom : p.From t := by
    have hworded := worded_inspections file t step hstep
    cases step with
    | demand what node => exact hworded p hp
    | record f => exact hworded.shown p hp
  cases p with
  | fixed s => rfl
  | plain s =>
    have hkey := Tree.fault?_of_holds hfrom h
    rwa [Tree.fault?] at hkey
  | tree u =>
    rcases hfrom with hu | rfl
    · exact Tree.fault?_of_within hu h
    · rfl

end Schema

open Schema

/-! ## Findings -/

theorem first_fault {limits : Limits} {steps : List Inspection}
    (h : ∃ step ∈ steps, step.fault? limits ≠ none) :
    ∃ before step after e, steps = before ++ step :: after ∧
      (∀ s ∈ before, s.fault? limits = none) ∧ step.fault? limits = some e := by
  obtain ⟨e, he⟩ : ∃ e, steps.findSome? (·.fault? limits) = some e := by
    rw [← Option.isSome_iff_exists, List.findSome?_isSome_iff]
    simpa [Option.isSome_iff_ne_none] using h
  obtain ⟨before, step, after, hrow, hfault, hbefore⟩ := List.findSome?_eq_some_iff.mp he
  exact ⟨before, step, after, e, hrow, hbefore, hfault⟩

/-- The finding says that the rules have stopped. -/
def SaysStopped (m : Message) : Prop := " (not a hash?)".toList <:+ m.text.toList

instance : DecidablePred SaysStopped := fun _ => inferInstanceAs (Decidable (_ <:+ _))

theorem not_saysStopped {file : String} {root : Tree} {f : Finding}
    (h : Ordinary file root f.wording) : ¬ SaysStopped f.message := by
  rintro ⟨lead, hlead⟩
  have hends := h.ends
  unfold endsOpen at hends
  change lead ++ _ = f.wording.text.toList at hlead
  rw [← hlead] at hends
  simp at hends

variable {limits : Limits} {file : String} {t : Tree}

/-- **The first step that is stopped stops the rules.** What was said before it stays, and the
report about it comes last. -/
theorem lintDocument_of_cut {before after : List Inspection} {step : Inspection} {e : RuleFault}
    (hrow : inspections file t = before ++ step :: after)
    (hbefore : ∀ s ∈ before, s.fault? limits = none) (he : step.fault? limits = some e) :
    lintDocument file t limits = before.flatMap (·.said) ++
      [.error (file ++ ": " ++ e.message ++ " (not a hash?)")] := by
  have hpass : ∀ s ∈ before, s.run limits = ⟨s.said, .ok ()⟩ := fun s hs => by
    rw [run_eq, hbefore s hs]
  have hstop : step.run limits = ⟨[], .error e⟩ := by rw [run_eq, he]
  have hrun : documentRule file t limits = ⟨before.flatMap (·.said), .error e⟩ := by
    rw [documentRule_eq, hrow,
      Logged.each_cut (fun s hs => by rw [hpass s hs]) (by rw [hstop]), hstop, List.append_nil,
      List.flatMap_congr fun s hs => by rw [hpass s hs]]
  rw [lintDocument, hrun]

theorem lintDocument_of_all (h : ∀ step ∈ inspections file t, step.fault? limits = none) :
    lintDocument file t limits = (inspections file t).flatMap (·.said) := by
  have hpass : ∀ step ∈ inspections file t, step.run limits = ⟨step.said, .ok ()⟩ :=
    fun step hstep => by rw [run_eq, h step hstep]
  have hrun : documentRule file t limits = ⟨(inspections file t).flatMap (·.said), .ok ()⟩ := by
    rw [documentRule_eq, Logged.each_done fun step hstep => by rw [hpass step hstep],
      List.flatMap_congr fun step hstep => by rw [hpass step hstep]]
  rw [lintDocument, hrun]

/-- A title that is a number of more than four thousand digits. -/
def longTitle : Tree := .map [(.str "version", .str "2.0.0"),
  (.str "profiles", .map [(.str "p", .map [(.str "title", .int (.ofNat (Nat.pow 10 4300)))])])]

/-- A profile that is no mapping cuts off the profiles behind it and all further sections. -/
example :
    let t := Tree.map [(.str "version", .str "2.0.0"), (.str "checks", .int 1),
      (.str "profiles", .map [(.str "a", .map [(.str "title", .int 3)]), (.str "b", .null),
        (.str "c", .map [(.str "x", .null)])])]
    lintDocument "a.yaml" t = [.warning "a.yaml: bad title '3'",
      .error "a.yaml: profile 'b': expected Mapping, got Null (not a hash?)"] := by
  decide +kernel

end Compliance
