import Compliance.JUnit
import Compliance.Proofs.WrittenFiles

/-! # What a report holds

* `Xml.attribute?`: the value of an attribute.
* `JUnit.foldl_levels`, `JUnit.failures_eq`: the counts of a report, level by level.
* `JUnit.export_ok`: a report that has been written stands in its file.
-/

namespace Compliance

/-- The value of an attribute. -/
def Xml.attribute? (name : String) : Xml.Element → Option String
  | .leaf _ attributes _ => attributes.lookup name
  | .node _ attributes _ => attributes.lookup name

namespace JUnit

/-- Levels without messages add nothing to a count. -/
theorem foldl_levels (d : Diagnostics) (count : Level × List String → Nat)
    (h : ∀ level, count (level, []) = 0) :
    ((levels d).map count).foldl (· + ·) 0 =
      count (.error, d.errors) + count (.warning, d.warnings) + count (.note, d.notes) := by
  have hone : ∀ level texts (ls : List (Level × List String)) n,
      ((((level, texts) :: ls).filter fun l => !l.2.isEmpty).map count).foldl (· + ·) n =
        ((ls.filter fun l => !l.2.isEmpty).map count).foldl (· + ·) (n + count (level, texts)) := by
    intro level texts ls n
    cases texts with
    | nil =>
      rw [h, Nat.add_zero]
      rfl
    | cons _ _ => rfl
  rw [levels, Diagnostics.byLevel, hone, hone, hone, Nat.zero_add]
  rfl

theorem failures_eq (strict : Bool) (d : Diagnostics) : failures strict d =
    d.errors.length + if strict then d.warnings.length else 0 := by
  rw [failures, foldl_levels d _ fun level => by simp]
  rfl

variable {o : Options} {d : Diagnostics} {disk after : Disk} {path : Path} {s : Summary}

theorem prepared_ok {next : Disk → Option String → Disk × Except Fault Summary}
    (h : prepared o disk path next = (after, .ok s)) :
    ∃ made time, next made time = (after, .ok s) := by
  unfold prepared at h
  split at h
  · cases h
  · split at h
    · cases h
    · exact ⟨_, _, h⟩

theorem writeReport_ok {time : Option String}
    (h : writeReport o d path disk time = (after, .ok s)) :
    s = summary o.strict d path ∧
      after.readBytes path = .ok (Xml.document (root o time d)).toUTF8 := by
  unfold writeReport at h
  dsimp only at h
  split at h
  · cases hwritten : disk.write path (Xml.document (root o time d)).toUTF8 with
    | error e =>
      rw [hwritten] at h
      cases h
    | ok written =>
      rw [hwritten] at h
      obtain ⟨rfl, hs⟩ := Prod.mk.inj h
      exact ⟨(Except.ok.inj hs).symm, Disk.readBytes_write hwritten⟩
  · cases h

theorem export_ok (h : export_ o d disk path = (after, .ok s)) :
    s = summary o.strict d path ∧
      ∃ time, after.readBytes path = .ok (Xml.document (root o time d)).toUTF8 := by
  obtain ⟨made, time, hwritten⟩ := prepared_ok h
  obtain ⟨hsummary, hread⟩ := writeReport_ok hwritten
  exact ⟨hsummary, time, hread⟩

end JUnit

end Compliance
