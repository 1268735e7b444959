import Compliance.Confine
import Compliance.JUnit
import Compliance.Proofs.UnionFacts

/-! # Where a message is split

* `Text.Leads`, `cutList?_eq_some`: a text is cut at the first occurrence of the mark, and nowhere
  else.
* `leads_pair`, `leads_of_notMem`: what stands in front of a mark of two characters.
* `splitSource_label`: a label behind the source is dropped, up to its own first colon and blank.
* `splitSource_describe`: the label of a context ends the source. Its text is recovered if there is
  no context; the label of any other context has a colon and a blank of its own, and is split there.
-/

namespace Compliance

namespace Text

/-! ## The first occurrence -/

section
variable {α : Type}

/-- A mark right behind `front` is the first one there: none begins earlier, be it that it overlaps
with the one behind `front`. -/
def Leads (front mark : List α) : Prop := ¬ mark <:+: front ++ mark.dropLast

theorem leads_nil {mark : List α} (hmark : mark ≠ []) : Leads [] mark := fun h => by
  have hlength := h.length_le
  have hpos := List.length_pos_iff.mpr hmark
  rw [List.nil_append, List.length_dropLast] at hlength
  omega

theorem leads_cons {mark front : List α} {c : α} : Leads (c :: front) mark ↔
    ¬ mark <+: c :: (front ++ mark.dropLast) ∧ Leads front mark := by
  unfold Leads
  rw [List.cons_append, List.infix_cons_iff, not_or]

/-- Whether the mark stands in front does not depend on the last character of a later one, nor on
what is behind that. -/
theorem prefix_iff_of_cons {mark front rest : List α} {c : α} :
    mark <+: c :: (front ++ mark ++ rest) ↔ mark <+: c :: (front ++ mark.dropLast) := by
  have hlength : mark.length ≤ (c :: (front ++ mark.dropLast)).length := by
    rw [List.length_cons, List.length_append, List.length_dropLast]
    omega
  have hpart : c :: (front ++ mark.dropLast) <+: c :: (front ++ mark ++ rest) := by
    rw [List.append_assoc, List.cons_prefix_cons]
    refine ⟨rfl, (List.prefix_append_right_inj front).mpr ?_⟩
    exact (List.dropLast_prefix mark).trans (List.prefix_append mark rest)
  exact ⟨fun h => List.prefix_of_prefix_length_le h hpart hlength, fun h => h.trans hpart⟩

/-- **A text is cut at the first occurrence of the mark.** -/
theorem cutList?_eq_some [DecidableEq α] {mark cs front rest : List α} (hmark : mark ≠ []) :
    cutList? mark cs = some (front, rest) ↔ cs = front ++ mark ++ rest ∧ Leads front mark := by
  induction cs generalizing front with
  | nil => simp [cutList?, hmark]
  | cons c cs ih =>
    rw [cutList?]
    cases front with
    | nil =>
      rw [List.nil_append, ← stripList?_eq_some]
      cases stripList? mark (c :: cs) with
      | none => simp
      | some after => simp [leads_nil hmark]
    | cons c' front =>
      rw [leads_cons, List.cons_append, List.cons_append, List.cons.injEq]
      cases hstrip : stripList? mark (c :: cs) with
      | none =>
        -- the mark is not here, so the cut is further on
        simp only [Option.map_eq_some_iff, Prod.mk.injEq, List.cons.injEq, Prod.exists]
        constructor
        · rintro ⟨front', rest', hcut, ⟨rfl, rfl⟩, rfl⟩
          obtain ⟨rfl, hleads⟩ := ih.mp hcut
          refine ⟨⟨rfl, rfl⟩, fun hhere => ?_, hleads⟩
          obtain ⟨after, hafter⟩ := prefix_iff_of_cons.mpr hhere
          cases hstrip.symm.trans (stripList?_eq_some.mpr hafter.symm)
        · rintro ⟨⟨rfl, rfl⟩, -, hleads⟩
          exact ⟨front, rest, ih.mpr ⟨rfl, hleads⟩, ⟨rfl, rfl⟩, rfl⟩
      | some after =>
        refine iff_of_false (by simp) ?_
        rintro ⟨⟨rfl, rfl⟩, hnot, -⟩
        exact hnot (prefix_iff_of_cons.mp ⟨after, (stripList?_eq_some.mp hstrip).symm⟩)

theorem cut?_of_leads {mark front : String} (rest : String) (hmark : mark ≠ "")
    (h : Leads front.toList mark.toList) :
    cut? mark (front ++ mark ++ rest) = some (front, rest) := by
  have hcut : cutList? mark.toList (front.toList ++ mark.toList ++ rest.toList) =
      some (front.toList, rest.toList) :=
    (cutList?_eq_some (by simpa using hmark)).mpr ⟨rfl, h⟩
  unfold cut?
  rw [String.toList_append, String.toList_append, hcut]
  simp only [Option.map_some, String.ofList_toList]

/-! ## Marks of two characters -/

/-- A mark of two different characters cannot overlap with itself. -/
theorem leads_pair {a b : α} {front : List α} (hab : a ≠ b) (h : ¬ [a, b] <:+: front) :
    Leads front [a, b] := by
  intro hinside
  rcases List.infix_concat_iff.mp hinside with hsuffix | hinside
  · obtain ⟨lead, hlead⟩ := hsuffix
    have hlast : b = a := by simpa using congrArg List.getLast? hlead
    exact hab hlast.symm
  · exact h hinside

theorem leads_of_notMem {a b : α} {front : List α} (hab : a ≠ b) (h : a ∉ front) :
    Leads front [a, b] :=
  leads_pair hab fun hinside => h (hinside.subset List.mem_cons_self)

end

end Text

/-! ## Sources -/

theorem describeContext_of_ne {context : Tree} (h : context ≠ .null) :
    describeContext context = "(confined: " ++ context.render ++ ")" := by
  unfold describeContext
  split
  · exact absurd rfl h
  · rfl

section
variable {source : String} (hcolon : ':' ∉ source.toList)
  (hparen : ¬ " (".toList <:+: source.toList)
include hcolon hparen

/-- **A label behind the source is dropped.** The message is split at the first colon and blank,
which end the label. -/
theorem splitSource_label {label : String} (hlabel : ':' ∉ label.toList) (text : String) :
    splitSource (source ++ " (" ++ label ++ ": " ++ text) = (source, text) := by
  have hfront : ':' ∉ (source ++ " (" ++ label).toList := by simp [hcolon, hlabel]
  have hcut : Text.Leads (source ++ " (" ++ label).toList [':', ' '] :=
    Text.leads_of_notMem (by decide) hfront
  have hlead : Text.Leads source.toList [' ', '('] := Text.leads_pair (by decide) hparen
  unfold splitSource
  rw [Text.cut?_of_leads text (by decide) hcut]
  dsimp only
  rw [Text.cut?_of_leads label (by decide) hlead]

/-- **The source of a message about a context is always found.** Its text is found if there is no
context. Any other context is named by a label that has the first colon and blank of the message, so
what is taken for the text begins with the context, and is not the text. -/
theorem splitSource_describe (context : Tree) (text : String) :
    let split := splitSource (source ++ " " ++ describeContext context ++ ": " ++ text)
    split.1 = source ∧
    (context = .null → split.2 = text) ∧
    (context ≠ .null → split.2 = context.render ++ "): " ++ text ∧ split.2 ≠ text) := by
  intro split
  by_cases hnull : context = .null
  · have hsplit : split = (source, text) := by
      have hmessage : source ++ " " ++ describeContext context ++ ": " ++ text =
          source ++ " (" ++ "no confinement data)" ++ ": " ++ text := by
        rw [hnull, describeContext]
        simp [← String.toList_inj]
      have hlabel : ':' ∉ "no confinement data)".toList := by decide
      exact (congrArg splitSource hmessage).trans (splitSource_label hcolon hparen hlabel text)
    rw [hsplit]
    exact ⟨rfl, fun _ => rfl, fun hne => absurd hnull hne⟩
  · have hsplit : split = (source, context.render ++ "): " ++ text) := by
      have hmessage : source ++ " " ++ describeContext context ++ ": " ++ text =
          source ++ " (" ++ "confined" ++ ": " ++ (context.render ++ "): " ++ text) := by
        rw [describeContext_of_ne hnull]
        simp [← String.toList_inj]
      have hlabel : ':' ∉ "confined".toList := by decide
      exact (congrArg splitSource hmessage).trans (splitSource_label hcolon hparen hlabel _)
    rw [hsplit]
    refine ⟨rfl, fun h => absurd h hnull, fun _ => ⟨rfl, fun heq => ?_⟩⟩
    -- the closing parenthesis alone makes what is found longer than the text
    have hlength := congrArg String.length heq
    simp only [String.length_append] at hlength
    have hmark : "): ".length = 3 := by decide
    omega

end

/-- The source of a note about a profile is found, and with a context the note is not. -/
theorem splitSource_describe_note :
    let note := "No Hiera values found"
    let redhat : Tree := .map [(.str "os.family", .str "RedHat")]
    ':' ∉ "base".toList ∧ ¬ " (".toList <:+: "base".toList ∧
    (splitSource ("base" ++ " " ++ describeContext .null ++ ": " ++ note)).2 = note ∧
    (splitSource ("base" ++ " " ++ describeContext redhat ++ ": " ++ note)).1 = "base" ∧
    (splitSource ("base" ++ " " ++ describeContext redhat ++ ": " ++ note)).2 ≠ note := by
  intro note redhat
  have hcolon : ':' ∉ "base".toList := by decide
  have hparen : ¬ " (".toList <:+: "base".toList := by decide
  obtain ⟨-, hnull, -⟩ := splitSource_describe hcolon hparen .null note
  obtain ⟨hsource, -, hlost⟩ := splitSource_describe hcolon hparen redhat note
  exact ⟨hcolon, hparen, hnull rfl, hsource, (hlost nofun).2⟩

-- the context is taken for a part of the text
example : splitSource "base (confined: \x7bos.family: \"RedHat\"\x7d): No Hiera values found" =
    ("base", "\x7bos.family: \"RedHat\"\x7d): No Hiera values found") := by
  decide +kernel

end Compliance
