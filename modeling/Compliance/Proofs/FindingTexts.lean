import Compliance.Proofs.SchemaVerdicts
import Compliance.Proofs.VisitedNodes

/-! # What findings say

Every finding of a rule begins with the file that it is about, and shows values of the document
only. None ends like the report about rules that have stopped, so that this report is told from them
by its text.

* `Piece.From`: a piece that shows nothing but what stands in the document.
* `Schema.Label`, `Schema.Ordinary`, `Schema.Worded`: how a finding begins, a finding, and a list of
  them; `append`, `flatMap`, `overEntries` and the like put lists together.
* `Schema.worded_checkRule`, `Schema.worded_profileFieldsRule`, `Schema.worded_ceFieldsRule`: the
  rules for one body.
-/

namespace Compliance

open Compliance.Tree (Within)

/-! ## What stands in a document -/

namespace Tree.Within

variable {root t : Tree} {m : Mapping}

theorem key (h : Within (.map m) root) {e : Scalar × Tree} (he : e ∈ m) :
    root.Holds (.scalar e.1) := .inr ⟨m, e.1, e.2, h, he, rfl⟩

theorem value (h : Within (.map m) root) {e : Scalar × Tree} (he : e ∈ m) : Within e.2 root :=
  h.trans (.under he .here)

theorem item {items : List Tree} (h : Within (.seq items) root) (ht : t ∈ items) : Within t root :=
  h.trans (.among ht .here)

theorem field (h : Within (.map m) root) {name : String} (hf : Tree.field? m name = some t) :
    Within t root := by
  obtain ⟨key, hm, -⟩ := Table.mem_of_get? hf
  exact h.value hm

end Tree.Within

/-- The piece is fixed, or shows what stands in the document; a null may stand for a value that is
missing. -/
@[simp] def Piece.From (root : Tree) : Piece → Prop
  | .fixed _ => True
  | .plain s => root.Holds (.scalar s)
  | .tree t => Within t root ∨ t = .null

namespace Schema

/-! ## Wordings -/

/-- The text is not empty, and ends in another character than a closing parenthesis. -/
def endsOpen (text : String) : Bool := text.toList.getLast?.any (· != ')')

theorem endsOpen_append {lead last : String} (h : endsOpen last = true) :
    endsOpen (lead ++ last) = true := by
  unfold endsOpen at *
  rw [String.toList_append, List.getLast?_append]
  cases hl : last.toList.getLast? with
  | none => simp [hl] at h
  | some c => simpa [hl] using h

/-- The wording begins with the file and shows values of the document only. -/
structure Label (file : String) (root : Tree) (wording : Wording) : Prop where
  names : file.toList <+: wording.text.toList
  shown : ∀ p ∈ wording, p.From root

/-- Besides, the wording does not end in a parenthesis. -/
structure Ordinary (file : String) (root : Tree) (wording : Wording) : Prop
    extends Label file root wording where
  ends : endsOpen wording.text = true

/-- The wordings of the findings are ordinary. -/
def Worded (file : String) (root : Tree) (findings : List Finding) : Prop :=
  ∀ f ∈ findings, Ordinary file root f.wording

variable {file : String} {root : Tree}

theorem Label.led {lead : String} (h : file.toList <+: lead.toList) {more : Wording}
    (hmore : ∀ p ∈ more, p.From root) : Label file root (.fixed lead :: more) where
  names := by
    rw [Wording.text, String.toList_append]
    exact h.trans (List.prefix_append _ _)
  shown := List.forall_mem_cons.mpr ⟨trivial, hmore⟩

/-- The last piece does not end in a parenthesis. -/
def closes : Wording → Bool
  | [] => false
  | [p] => endsOpen p.text
  | _ :: r => closes r

theorem endsOpen_text : ∀ {wording : Wording}, closes wording = true →
    endsOpen wording.text = true
  | [p], h => by
    rw [Wording.text_singleton]
    exact h
  | _ :: p :: r, h => by
    have hrest : closes (p :: r) = true := by simpa [closes] using h
    exact endsOpen_append (endsOpen_text hrest)

/-- What follows a label closes a finding. -/
theorem Label.close {place more : Wording} (h : Label file root place)
    (hlast : closes more = true) (hmore : ∀ p ∈ more, p.From root) :
    Ordinary file root (place ++ more) where
  names := by
    rw [Wording.text_append, String.toList_append]
    exact h.names.trans (List.prefix_append _ _)
  shown := List.forall_mem_append.mpr ⟨h.shown, hmore⟩
  ends := by
    rw [Wording.text_append]
    exact endsOpen_append (endsOpen_text hlast)

theorem Ordinary.led {lead : String} (h : file.toList <+: lead.toList) {more : Wording}
    (hlast : closes more = true) (hmore : ∀ p ∈ more, p.From root) :
    Ordinary file root (.fixed lead :: more) := by
  have hlead : Label file root [.fixed lead] := .led h nofun
  exact hlead.close hlast hmore
/-! ## Putting findings together -/

namespace Worded

theorem nil : Worded file root [] := fun _ hf => absurd hf List.not_mem_nil

theorem one {level : Level} {wording : Wording} (h : Ordinary file root wording) :
    Worded file root [⟨level, wording⟩] := fun _ hf => List.mem_singleton.mp hf ▸ h

theorem append {fs gs : List Finding} (hf : Worded file root fs) (hg : Worded file root gs) :
    Worded file root (fs ++ gs) := List.forall_mem_append.mpr ⟨hf, hg⟩

theorem flatMap {α : Type} {items : List α} {rule : α → List Finding}
    (h : ∀ x ∈ items, Worded file root (rule x)) : Worded file root (items.flatMap rule) := by
  intro f hf
  obtain ⟨x, hx, hin⟩ := List.mem_flatMap.mp hf
  exact h x hx f hin

theorem warnUnless {test : Bool} {wording : Wording} (h : Ordinary file root wording) :
    Worded file root (warnUnless test wording) := by
  unfold Schema.warnUnless
  split
  · exact nil
  · exact one h

theorem failUnless {test : Bool} {wording : Wording} (h : Ordinary file root wording) :
    Worded file root (failUnless test wording) := by
  unfold Schema.failUnless
  split
  · exact nil
  · exact one h

theorem overEntries {judge : Scalar → Tree → List Finding} {t : Tree} (ht : Within t root)
    (what : String)
    (h : ∀ key value, root.Holds (.scalar key) → Within value root →
      Worded file root (judge key value)) :
    Worded file root (overEntries file what t judge) := by
  have hnone : Ordinary file root
      [.fixed (file ++ ": bad " ++ what ++ " '"), .tree t, .fixed "'"] :=
    .led (by simp) rfl (by simp [ht])
  cases t with
  | map entries => exact flatMap fun e he => h e.1 e.2 (ht.key he) (ht.value he)
  | scalar s => exact one hnone
  | seq items => exact one hnone

theorem overItems {judge : Tree → List Finding} {t : Tree} (ht : Within t root) (what : String)
    (h : ∀ u, Within u root → Worded file root (judge u)) :
    Worded file root (overItems file what t judge) := by
  have hnone : Ordinary file root
      [.fixed (file ++ ": bad " ++ what ++ " '"), .tree t, .fixed "'"] :=
    .led (by simp) rfl (by simp [ht])
  cases t with
  | seq items => exact flatMap fun u hu => h u (ht.item hu)
  | scalar s => exact one hnone
  | map entries => exact one hnone

section
variable {rule : Tree → List Finding} {m : Mapping} (hm : Within (.map m) root)
  (h : ∀ t, Within t root → Worded file root (rule t)) (name : String)
include hm h

theorem ifPresent : Worded file root (ifPresent m name rule) := by
  unfold Schema.ifPresent
  split
  · exact nil
  · exact nil
  · rename_i value _ hf
    exact h value (hm.field hf)

theorem ifSet : Worded file root (ifSet m name rule) := by
  unfold Schema.ifSet
  split
  · exact nil
  · rename_i value hf
    split
    · exact h value (hm.field hf)
    · exact nil

end

end Worded

/-! ## Fields -/

theorem worded_knownKeys {place : Wording} (hplace : Label file root place) (known : List String)
    {m : Mapping} (hm : Within (.map m) root) : Worded file root (knownKeys place known m) :=
  .flatMap fun _ he => .warnUnless (hplace.close rfl (by simp [hm.key he]))

section
variable {t : Tree} (ht : Within t root)
include ht

theorem worded_textField (what : String) : Worded file root (textField what file t) :=
  .warnUnless (.led (by simp) rfl (by simp [ht]))

theorem worded_switchesRule (what item : String) (on : Tree → Bool) :
    Worded file root (switchesRule what item on file t) :=
  .overEntries ht what fun _ _ hkey _ => .warnUnless (.led (by simp) rfl (by simp [hkey]))

theorem worded_confineRule : Worded file root (confineRule file t) :=
  .overEntries ht "confine" fun _ _ _ _ => .nil

theorem worded_identifiersRule : Worded file root (identifiersRule file t) := by
  refine .overEntries ht "identifiers" fun key value hkey hvalue => ?_
  split
  · exact .flatMap fun u hu => .warnUnless (.led (by simp) rfl (by simp [hvalue.item hu]))
  · exact .one (.led (by simp) rfl (by simp [hkey]))

theorem worded_textItemsRule (what item : String) :
    Worded file root (textItemsRule what item file t) :=
  .overItems ht what fun _ hu => .warnUnless (.led (by simp) rfl (by simp [hu]))

theorem worded_importedDataRule : Worded file root (importedDataRule file t) :=
  .overEntries ht "imported_data" fun _ _ hkey hvalue =>
    .append (.warnUnless (.led (by simp) rfl (by simp [hkey])))
      (.warnUnless (.led (by simp) rfl (by simp [hkey, hvalue])))

end

/-! ## Profiles and CEs -/

section
variable {name : Scalar} (hname : root.Holds (.scalar name)) {m : Mapping}
  (hm : Within (.map m) root)
include hname hm

theorem worded_profileFieldsRule : Worded file root (profileFieldsRule file name m) :=
  worded_knownKeys (.led (by simp) (by simp [hname])) profileKeys hm
    |>.append (.ifPresent hm (fun _ ht => worded_textField ht "title") "title")
    |>.append (.ifPresent hm (fun _ ht => worded_textField ht "description") "description")
    |>.append (.ifPresent hm (fun _ ht => worded_switchesRule ht _ _ _) "controls")
    |>.append (.ifPresent hm (fun _ ht => worded_switchesRule ht _ _ _) "ces")
    |>.append (.ifPresent hm (fun _ ht => worded_switchesRule ht _ _ _) "checks")
    |>.append (.ifPresent hm (fun _ ht => worded_confineRule ht) "confine")

theorem worded_ceFieldsRule : Worded file root (ceFieldsRule file name m) :=
  worded_knownKeys (.led (by simp) (by simp [hname])) ceKeys hm
    |>.append (.ifPresent hm (fun _ ht => worded_textField ht "title") "title")
    |>.append (.ifPresent hm (fun _ ht => worded_textField ht "description") "description")
    |>.append (.ifPresent hm (fun _ ht => worded_switchesRule ht _ _ _) "controls")
    |>.append (.ifPresent hm (fun _ ht => worded_identifiersRule ht) "identifiers")
    |>.append (.ifPresent hm (fun _ ht => worded_textItemsRule ht _ _) "oval-ids")
    |>.append (.ifPresent hm (fun _ ht => worded_confineRule ht) "confine")
    |>.append (.ifPresent hm (fun _ ht => worded_importedDataRule ht) "imported_data")

end

/-! ## Checks -/

/-- The shapes of remediation sections are worded without a parenthesis. -/
theorem endsOpen_expected {section_ : Scalar} {shape : RemediationShape}
    (h : remediationShape? section_ = some shape) : endsOpen (", " ++ shape.expected) = true := by
  unfold remediationShape? at h
  split at h
  · cases h
    decide
  · split at h
    · cases h
      decide
    · cases h

/-- The sections of a remediation that have a shape have names without a parenthesis. -/
theorem endsOpen_section {section_ : Scalar} {shape : RemediationShape}
    (h : remediationShape? section_ = some shape) : endsOpen section_.text = true := by
  have hall : ∀ names, section_.isOneOf names = true →
      (∀ name ∈ names, endsOpen name = true) → endsOpen section_.text = true := by
    intro names hnames hopen
    obtain ⟨name, hname, rfl⟩ := isOneOf_iff.mp hnames
    exact hopen name hname
  unfold remediationShape? at h
  split at h
  · rename_i hreason
    exact hall _ hreason (by decide)
  · split at h
    · rename_i hrisk
      exact hall _ hrisk (by decide)
    · cases h

section
variable {subject : Wording} (hsubject : Label file root subject)
include hsubject

theorem worded_typeRule {t : Tree} (ht : (Piece.tree t).From root) :
    Worded file root (typeRule subject t) :=
  .failUnless (hsubject.close rfl (by simpa using ht))

theorem worded_parameterRule {t : Tree} (ht : Within t root) :
    Worded file root (parameterRule subject t) :=
  .failUnless (hsubject.close rfl (by simp [ht]))

theorem worded_settingsRule {t : Tree} (ht : (Piece.tree t).From root) :
    Worded file root (settingsRule subject t) := by
  unfold settingsRule
  split
  · exact .one (hsubject.close rfl (by simp))
  · rename_i entries
    have hm : Within (.map entries) root := ht.resolve_right nofun
    refine .append (.append ?_ (.failUnless (hsubject.close rfl (by simp)))) ?_
    · split
      · rename_i parameter hf
        exact worded_parameterRule hsubject (hm.field hf)
      · exact .one (hsubject.close rfl (by simp))
    · exact worded_knownKeys hsubject settingsKeys hm
  · exact .one (hsubject.close rfl (by simpa using ht))

section
variable {section_ : Scalar} (hsection : root.Holds (.scalar section_)) {t : Tree}
  (ht : Within t root)
include hsection ht

theorem worded_remediationEntryRule {shape : RemediationShape}
    (h : remediationShape? section_ = some shape) :
    Worded file root (remediationEntryRule subject section_ shape t) := by
  have hmalformed : Ordinary file root (subject ++
      [.fixed ": malformed remediation section ", .plain section_,
        .fixed (", " ++ shape.expected)]) :=
    hsubject.close (endsOpen_expected h) (by simp [hsection])
  cases t with
  | map fields =>
    refine .append (.flatMap fun e he => .warnUnless ?_) (.failUnless hmalformed)
    exact hsubject.close (endsOpen_section h) (by simp [hsection, ht.key he])
  | scalar s => exact .one hmalformed
  | seq items => exact .one hmalformed

theorem worded_remediationSectionRule :
    Worded file root (remediationSectionRule subject section_ t) := by
  unfold remediationSectionRule
  split
  · exact .one (hsubject.close rfl (by simp [hsection]))
  · rename_i shape hshape
    split
    · exact .flatMap fun u hu =>
        worded_remediationEntryRule hsubject hsection (ht.item hu) hshape
    · exact .one (hsubject.close (endsOpen_expected hshape) (by simp [hsection]))

end

theorem worded_remediationRule {t : Tree} (ht : Within t root) :
    Worded file root (remediationRule subject t) := by
  have hnone : Ordinary file root
      (subject ++ [.fixed ": malformed remediation section, expecting a hash."]) :=
    hsubject.close rfl (by simp)
  cases t with
  | map sections =>
    exact .flatMap fun e he => worded_remediationSectionRule hsubject (ht.key he) (ht.value he)
  | scalar s => exact .one hnone
  | seq items => exact .one hnone

end

/-- A field that complete data have to hold is judged as a null where it is missing. -/
theorem worded_demanded (complete : Bool) {rule : Tree → List Finding} {m : Mapping}
    (hm : Within (.map m) root)
    (h : ∀ t, (Piece.tree t).From root → Worded file root (rule t)) (name : String) :
    Worded file root
      (if complete then rule ((Tree.field? m name).getD .null) else ifSet m name rule) := by
  cases complete with
  | false => exact .ifSet hm (fun t ht => h t (.inl ht)) name
  | true =>
    refine h _ ?_
    cases hf : Tree.field? m name with
    | none => exact .inr rfl
    | some t => exact .inl (hm.field hf)

theorem worded_checkRule (complete : Bool) {check : Scalar} (hcheck : root.Holds (.scalar check))
    {t : Tree} (ht : Within t root) : Worded file root (checkRule file complete check t) := by
  have hsubject : Label file root (checkSubject file check) := .led (by simp) (by simp [hcheck])
  unfold checkRule
  dsimp only
  split
  · exact .one (hsubject.close rfl (by simp))
  · rename_i entries
    exact worded_knownKeys hsubject checkKeys ht
      |>.append (worded_demanded complete ht (fun _ => worded_typeRule hsubject) "type")
      |>.append (worded_demanded complete ht (fun _ => worded_settingsRule hsubject) "settings")
      |>.append (.ifSet ht (fun _ => worded_remediationRule hsubject) "remediation")
      |>.append (.ifPresent ht (fun _ hu => worded_switchesRule hu _ _ _) "controls")
      |>.append (.ifPresent ht (fun _ hu => worded_identifiersRule hu) "identifiers")
      |>.append (.ifPresent ht (fun _ hu => worded_textItemsRule hu _ _) "oval-ids")
      |>.append (.ifPresent ht (fun _ hu => worded_textItemsRule hu _ _) "ces")
      |>.append (.ifPresent ht (fun _ hu => worded_confineRule hu) "confine")
  · -- the text is put together of two, and only the second matters
    have hends : closes [.fixed (": contains something other than a hash, " ++
        "this is most likely caused by a missing note or ce element under the check")] = true :=
      endsOpen_append (by decide)
    exact .one (hsubject.close hends (by simp))

/-! ## Documents -/

theorem worded_versionRule (document : Mapping) : Worded file root (versionRule file document) := by
  refine .failUnless ⟨.led (by simp) (by simp), ?_⟩
  have hends : endsOpen ": version check failed" = true := by decide
  exact endsOpen_text (endsOpen_append hends)

theorem worded_keysRule {document : Mapping} (hm : Within (.map document) root) :
    Worded file root (keysRule file document) :=
  worded_knownKeys (.led List.prefix_rfl (by simp)) topLevelKeys hm

end Schema

end Compliance
