import Compliance.Proofs.AccountedReport
import Compliance.Proofs.MessageSources

/-! # Texts that a document can hold

A document is not made if a character stands in it that XML does not admit. Numbers are written
without such a character, and what is taken out of a text has no other characters than the text.

* `Xml.Forbidden`, `Xml.Spoilt`: the characters that are not admitted, and the texts with one.
* `Decimal.allowed_layout`, `Binary64.isClean_text`: numbers, from their digits on.
* `JUnit.timeText?_isClean`: a duration.
* `isClean_splitSource`: the source and the text of a message.
* `Text.cutList?_map`: a list is cut where its image is. `splitSource_readable`: so splitting a
  message does not depend on what is shown for half of a surrogate pair.
-/

namespace Compliance

namespace Xml

/-! ## Characters -/

/-- The characters that XML 1.0 does not admit: controls other than tabs and line ends, and the two
code points at the end of the basic plane that are no characters. -/
def Forbidden (c : Char) : Prop :=
  c.toNat < 0x20 ∧ c ≠ '\t' ∧ c ≠ '\n' ∧ c ≠ '\r' ∨ c.toNat = 0xFFFE ∨ c.toNat = 0xFFFF

/-- A text with a character that XML 1.0 does not admit. -/
def Spoilt (s : String) : Prop := ∃ c ∈ s.toList, Forbidden c

theorem isAllowed_iff {c : Char} : isAllowed c = true ↔ ¬ Forbidden c := by
  -- no character is half a surrogate pair
  have hvalid : c.toNat < 0xD800 ∨ 0xDFFF < c.toNat := by
    rcases c.valid with h | h
    · exact .inl h
    · exact .inr h.1
  have hcode : ∀ d : Char, c = d ↔ c.toNat = d.toNat := fun d => Char.toNat_inj.symm
  simp only [isAllowed, Forbidden, ne_eq, hcode, Bool.or_eq_true, Bool.and_eq_true, beq_iff_eq,
    decide_eq_true_eq, Char.reduceToNat]
  omega

theorem isClean_iff {s : String} : isClean s = true ↔ ¬ Spoilt s := by
  simp only [isClean, Spoilt, List.all_eq_true, isAllowed_iff, not_exists, not_and]

theorem isClean_append (s t : String) : isClean (s ++ t) = (isClean s && isClean t) := by
  rw [isClean, String.toList_append, List.all_append, isClean, isClean]

theorem isAllowed_of_isDigit {c : Char} (h : c.isDigit = true) : isAllowed c = true := by
  have hrange := Char.isDigit_iff_toNat.mp h
  simp only [Char.reduceToNat] at hrange
  rw [isAllowed_iff]
  rintro (⟨hlow, -⟩ | htop | htop) <;> omega

theorem allowed_of_isDigit {cs : List Char} (h : ∀ c ∈ cs, c.isDigit = true) :
    cs.all isAllowed = true :=
  List.all_eq_true.mpr fun c hc => isAllowed_of_isDigit (h c hc)

theorem allowed_of_subset {cs ds : List Char} (h : ds.all isAllowed = true) (hsubset : cs ⊆ ds) :
    cs.all isAllowed = true :=
  List.all_eq_true.mpr fun c hc => List.all_eq_true.mp h c (hsubset hc)

end Xml

open Xml

/-! ## Numbers -/

theorem isClean_toString (n : Nat) : isClean (toString n) = true := by
  rw [isClean, Nat.toString_eq_ofList_toDigits, String.toList_ofList]
  exact allowed_of_isDigit fun _ => Nat.isDigit_of_mem_toDigits (by decide) (by decide)

theorem isClean_padded (width n : Nat) : isClean (Text.padded width n) = true :=
  allowed_of_isDigit fun _ => Text.isDigit_of_mem_padded

namespace Decimal

theorem allowed_digits (n : Nat) : (digits n).all isAllowed = true :=
  allowed_of_isDigit fun _ => Nat.isDigit_of_mem_toDigits (by decide) (by decide)

theorem allowed_zeros (n : Nat) : (List.replicate n '0').all isAllowed = true :=
  allowed_of_isDigit fun c hc => by
    rw [(List.mem_replicate.mp hc).2]
    rfl

/-- **However digits are laid out**, what is added to them is admitted. -/
theorem allowed_layout {ds : List Char} (h : ds.all isAllowed = true) (place : Int) :
    (layout ds place).all isAllowed = true := by
  have hpoint : isAllowed '.' = true ∧ isAllowed '0' = true := by decide
  unfold layout
  dsimp only
  split
  · -- a point before, behind or between the digits
    split
    · simp only [List.all_append, List.all_cons, List.all_nil, hpoint, allowed_zeros, h,
        Bool.and_self]
    · split
      · simp only [List.all_append, List.all_cons, List.all_nil, hpoint, allowed_zeros, h,
          Bool.and_self]
      · simp only [List.all_append, List.all_cons, List.all_nil, hpoint, Bool.and_self,
          allowed_of_subset h (List.take_subset _ _), allowed_of_subset h (List.drop_subset _ _)]
  · -- the digits of the mantissa, a mark and a sign, and those of the power
    have hmark : ['e', if place - 1 < 0 then '-' else '+'].all isAllowed = true := by
      split <;> decide
    have hpower : (if (digits (place - 1).natAbs).length < 2 then
        '0' :: digits (place - 1).natAbs else digits (place - 1).natAbs).all isAllowed = true := by
      split
      · rw [List.all_cons, allowed_digits, hpoint.2, Bool.and_self]
      · exact allowed_digits _
    rw [List.all_append, List.all_append, hmark, hpower, Bool.and_true, Bool.and_true]
    split
    · exact h
    · rw [List.all_cons, Bool.and_eq_true] at h
      rw [List.all_cons, List.all_cons, h.1, h.2, hpoint.1, Bool.and_self, Bool.and_self]
    · rfl

theorem allowed_shortest (x : Binary64) : (shortest x).1.all isAllowed = true := by
  unfold shortest
  dsimp only
  split
  · rename_i c e _
    refine allowed_of_subset (allowed_digits c) fun d hd => ?_
    exact List.mem_reverse.mp (List.dropWhile_subset _ (List.mem_reverse.mp hd))
  · decide

end Decimal

theorem Binary64.isClean_text (x : Binary64) : isClean x.text = true := by
  unfold Binary64.text
  split
  · decide
  · have hmagnitude : (if !x.isFinite then ['i', 'n', 'f']
        else if x.isZero then ['0', '.', '0']
        else Decimal.layout (Decimal.shortest x).1 (Decimal.shortest x).2).all isAllowed := by
      split
      · decide
      · split
        · decide
        · exact Decimal.allowed_layout (Decimal.allowed_shortest x) _
    rw [isClean, String.toList_ofList]
    split
    · exact Bool.and_eq_true_iff.mpr ⟨by decide, hmagnitude⟩
    · exact hmagnitude

def JUnit.IsDuration (duration : Scalar) : Prop :=
  duration.dataType = .integer ∨ duration.dataType = .float ∨ duration.dataType = .boolean

/-- **A duration that is a number** is written without a character that is not admitted. -/
theorem JUnit.timeText?_isClean {duration : Scalar} (h : IsDuration duration) :
    ∃ time, timeText? duration = .ok time ∧ ∀ t ∈ time, isClean t = true := by
  cases duration with
  | int n =>
    refine ⟨_, rfl, fun t ht => ?_⟩
    split at ht
    · rename_i hpos
      obtain rfl := Option.some.inj ht
      obtain ⟨m, rfl⟩ := Int.eq_ofNat_of_zero_le (Int.le_of_lt hpos)
      exact isClean_toString m
    · cases ht
  | bool b =>
    refine ⟨_, rfl, fun t ht => ?_⟩
    split at ht
    · obtain rfl := Option.some.inj ht
      decide
    · cases ht
  | float x =>
    refine ⟨_, rfl, fun t ht => ?_⟩
    split at ht
    · cases ht
    · obtain rfl := Option.some.inj ht
      exact Binary64.isClean_text _
  | _ => exact absurd h (by simp [IsDuration, Scalar.dataType])

/-! ## Parts of a message -/

theorem Text.eq_of_cut? {mark s front rest : String} (hmark : mark ≠ "")
    (h : Text.cut? mark s = some (front, rest)) : s = front ++ mark ++ rest := by
  obtain ⟨⟨fs, rs⟩, hcut, hparts⟩ := Option.map_eq_some_iff.mp h
  obtain ⟨rfl, rfl⟩ := Prod.mk.inj hparts
  obtain ⟨hlist, -⟩ := (Text.cutList?_eq_some (by simpa using hmark)).mp hcut
  rw [← String.toList_inj, hlist]
  simp

theorem isClean_splitSource {message : String} (h : isClean message = true) :
    isClean (splitSource message).1 = true ∧ isClean (splitSource message).2 = true := by
  unfold splitSource
  cases hcut : Text.cut? ": " message with
  | none => exact ⟨rfl, h⟩
  | some parts =>
    obtain ⟨source, text⟩ := parts
    rw [Text.eq_of_cut? (by decide) hcut, isClean_append, isClean_append, Bool.and_eq_true,
      Bool.and_eq_true] at h
    obtain ⟨⟨hsource, -⟩, htext⟩ := h
    dsimp only
    cases hlead : Text.cut? " (" source with
    | none => exact ⟨hsource, htext⟩
    | some halves =>
      obtain ⟨front, label⟩ := halves
      rw [Text.eq_of_cut? (by decide) hlead, isClean_append, isClean_append, Bool.and_eq_true,
        Bool.and_eq_true] at hsource
      exact ⟨hsource.1.1, htext⟩

/-! ## Texts with halves -/

namespace Text

variable {α β : Type} [DecidableEq α] [DecidableEq β] {f : α → β} {mark : List α}

theorem stripList?_map (h : ∀ a ∈ mark, ∀ c, f c = f a → c = a) (cs : List α) :
    stripList? (mark.map f) (cs.map f) = (stripList? mark cs).map (·.map f) := by
  induction mark generalizing cs with
  | nil => cases cs <;> rfl
  | cons a mark ih =>
    obtain ⟨ha, hmark⟩ := List.forall_mem_cons.mp h
    cases cs with
    | nil => rfl
    | cons c cs =>
      simp only [List.map_cons, stripList?]
      by_cases hc : a = c
      · rw [if_pos hc, if_pos (congrArg f hc), ih hmark]
      · rw [if_neg hc, if_neg fun hf => hc (ha c hf.symm).symm]
        rfl

/-- **A list is cut where its image is**, if nothing but the parts of the mark has their images. -/
theorem cutList?_map (h : ∀ a ∈ mark, ∀ c, f c = f a → c = a) (cs : List α) :
    cutList? (mark.map f) (cs.map f) =
      (cutList? mark cs).map fun parts => (parts.1.map f, parts.2.map f) := by
  induction cs with
  | nil =>
    simp only [List.map_nil, cutList?, List.isEmpty_map]
    split <;> rfl
  | cons c cs ih =>
    have hstrip := stripList?_map h (c :: cs)
    rw [List.map_cons] at hstrip ⊢
    rw [cutList?, cutList?, hstrip]
    cases stripList? mark (c :: cs) with
    | some rest => rfl
    | none =>
      rw [Option.map_none]
      dsimp only
      rw [ih, Option.map_map, Option.map_map]
      rfl

end Text

open CodeText

/-- What is shown for a half is no part of a mark. -/
theorem CodePoint.eq_of_shown {mark : String} (hmark : '\ufffd' ∉ mark.toList) :
    ∀ a ∈ ofString mark, ∀ c : CodePoint, c.shown = a.shown → c = a := by
  intro a ha c hc
  obtain ⟨x, hx, rfl⟩ := List.mem_map.mp ha
  cases c with
  | char y => exact congrArg CodePoint.char hc
  | half n =>
    have hshown : '\ufffd' = x := hc
    exact absurd (hshown ▸ hx) hmark

theorem cut?_readable {mark : String} (hmark : '\ufffd' ∉ mark.toList) (t : CodeText) :
    Text.cut? mark t.readable = (Text.cutList? (ofString mark) t).map fun parts =>
      (readable parts.1, readable parts.2) := by
  have hchars : mark.toList = (ofString mark).map CodePoint.shown := by
    rw [ofString, List.map_map]
    exact (List.map_id _).symm
  rw [Text.cut?, readable, String.toList_ofList, hchars,
    Text.cutList?_map (CodePoint.eq_of_shown hmark), Option.map_map]
  rfl

/-- **Splitting a message does not depend on what is shown for a half.** -/
theorem splitSource_readable (message : CodeText) : splitSource message.readable =
    (readable (splitCodes message).1, readable (splitCodes message).2) := by
  unfold splitSource splitCodes
  rw [cut?_readable (by decide)]
  cases Text.cutList? (ofString ": ") message with
  | none => rfl
  | some parts =>
    obtain ⟨source, text⟩ := parts
    rw [Option.map_some]
    dsimp only
    rw [cut?_readable (by decide)]
    cases Text.cutList? (ofString " (") source <;> rfl

/-- A character that XML 1.0 does not admit. -/
def CodePoint.IsForbidden : CodePoint → Prop
  | .char c => Xml.Forbidden c
  | .half _ => False

theorem isClean_readable {t : CodeText} :
    isClean t.readable = true ↔ ¬ ∃ c ∈ t, c.IsForbidden := by
  have hshown : ∀ c : CodePoint, Forbidden c.shown ↔ c.IsForbidden := by
    intro c
    cases c with
    | char c => exact Iff.rfl
    | half n =>
      have hreplaced : ¬ Forbidden '\ufffd' := by
        unfold Forbidden
        decide
      exact iff_of_false hreplaced id
  simp only [isClean_iff, Spoilt, readable, String.toList_ofList, List.mem_map,
    exists_exists_and_eq_and, hshown]

theorem readable_ofString (s : String) : (ofString s).readable = s := by
  have hchars : (ofString s).map CodePoint.shown = s.toList := by
    rw [ofString, List.map_map]
    exact List.map_id _
  rw [readable, hchars, String.ofList_toList]

theorem isHalf_ofString {s : String} {c : CodePoint} (h : c ∈ ofString s) : c.isHalf = false := by
  obtain ⟨x, -, rfl⟩ := List.mem_map.mp h
  rfl

theorem cutList?_ofString (mark s : String) : Text.cutList? (ofString mark) (ofString s) =
    (Text.cut? mark s).map fun parts => (ofString parts.1, ofString parts.2) := by
  rw [ofString, ofString, Text.cutList?_map fun a _ c hc => CodePoint.char.inj hc, Text.cut?,
    Option.map_map]
  congr 1
  funext parts
  simp [ofString]

theorem splitCodes_ofString (s : String) :
    splitCodes (ofString s) = (ofString (splitSource s).1, ofString (splitSource s).2) := by
  unfold splitCodes splitSource
  rw [cutList?_ofString]
  cases Text.cut? ": " s with
  | none => rfl
  | some parts =>
    obtain ⟨source, text⟩ := parts
    rw [Option.map_some]
    dsimp only
    rw [cutList?_ofString]
    cases Text.cut? " (" source <;> rfl

end Compliance
