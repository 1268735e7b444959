import Compliance.Proofs.Reach
import Compliance.Yaml.Reader

/-! # Keys that are read are distinct

A reader makes a mapping from a list of pairs in which a key may come several times; the mapping has
it once. So the mappings in what is read have distinct keys at every depth.

* `distinct_ofPairs`: a mapping made from pairs of such values is such a value.
* `Yaml.distinct_outline`: the outline of the value of a YAML text is.
-/

namespace Compliance

open Compliance.Tree (Throughout DistinctNode throughout_map throughout_seq throughout_scalar)

/-- The values of pairs have distinct keys throughout. -/
def DistinctValues (pairs : List (Scalar × Tree)) : Prop :=
  ∀ e ∈ pairs, Throughout DistinctNode e.2

theorem DistinctValues.append {ps qs : List (Scalar × Tree)} (hp : DistinctValues ps)
    (hq : DistinctValues qs) : DistinctValues (ps ++ qs) := fun e he =>
  (List.mem_append.mp he).elim (hp e) (hq e)

/-- **A mapping made from pairs has distinct keys**, throughout if its values have. -/
theorem distinct_ofPairs {pairs : List (Scalar × Tree)} (h : DistinctValues pairs) :
    Throughout DistinctNode (.map (Table.ofPairs pairs)) := by
  refine throughout_map.mpr ⟨Table.distinct_insertAll List.Pairwise.nil pairs, fun e he => ?_⟩
  rcases Table.mem_insertAll he with hnil | ⟨p, hp, hv⟩
  · cases hnil
  · exact hv ▸ h p hp

theorem distinct_scalar (s : Scalar) : Throughout DistinctNode (.scalar s) :=
  throughout_scalar.mpr trivial

namespace Yaml

namespace Node

theorem both_ok {α β γ : Type} {f : α → β → γ} {x : Leveled α} {y : Leveled β} {c : γ}
    (h : both f x y = .ok c) : ∃ a b, x = .ok a ∧ y = .ok b ∧ f a b = c := by
  unfold both at h
  split at h
  · rename_i a b
    exact ⟨a, b, rfl, rfl, Except.ok.inj h⟩
  · cases h
  · cases h
  · split at h <;> cases h

theorem map_ok {α β : Type} {f : α → β} {x : Leveled α} {b : β} (h : x.map f = .ok b) :
    ∃ a, x = .ok a ∧ f a = b := by
  cases x with
  | error e => cases h
  | ok a => exact ⟨a, rfl, Except.ok.inj h⟩

theorem distinct_again : DistinctValues [(again, .scalar again)] := fun _ he =>
  List.mem_singleton.mp he ▸ distinct_scalar again

mutual

theorem distinct_build (level : Nat) : ∀ (n : Node) (t : Tree), build level n = .ok t →
    Throughout DistinctNode t
  | .scalar tag text, t, h => by
    rw [build] at h
    split at h
    · obtain ⟨s, -, rfl⟩ := map_ok h
      exact distinct_scalar s
    · split at h <;> cases h
  | .seq tag items, t, h => by
    rw [build] at h
    split at h
    · obtain ⟨ts, -, rfl⟩ := map_ok h
      exact throughout_seq.mpr trivial
    · obtain ⟨ts, -, rfl⟩ := map_ok h
      exact throughout_seq.mpr trivial
    · obtain ⟨ts, -, rfl⟩ := map_ok h
      exact throughout_seq.mpr trivial
    · cases h
  | .map tag pairs, t, h => by
    rw [build] at h
    split at h
    · split at h
      · obtain ⟨more, own, hmore, hown, rfl⟩ := both_ok h
        have hpairs := distinct_buildPairs (level + 1) pairs
        exact distinct_ofPairs ((hpairs.1 more hmore).append (hpairs.2 own hown))
      · cases h
    · split at h
      · obtain ⟨more, own, -, -, rfl⟩ := both_ok h
        exact distinct_scalar _
      · cases h
    · split at h
      · obtain ⟨s, -, rfl⟩ := map_ok h
        exact distinct_scalar s
      · cases h
  | .loop anchor, t, h => by
    rw [build] at h
    exact Except.ok.inj h ▸ distinct_scalar again

theorem distinct_buildPairs (level : Nat) : ∀ pairs : List (Node × Node),
    (∀ more, (buildPairs level pairs).1 = .ok more → DistinctValues more) ∧
      ∀ own, (buildPairs level pairs).2 = .ok own → DistinctValues own
  | [] => by
    rw [buildPairs]
    exact ⟨fun _ h => Except.ok.inj h ▸ fun _ he => absurd he List.not_mem_nil,
      fun _ h => Except.ok.inj h ▸ fun _ he => absurd he List.not_mem_nil⟩
  | (k, v) :: r => by
    obtain ⟨hmore, hown⟩ := distinct_buildPairs level r
    rw [buildPairs]
    dsimp only
    split
    · refine ⟨fun more h => ?_, hown⟩
      obtain ⟨merged, rest, hmerged, hrest, rfl⟩ := both_ok h
      exact (distinct_buildMerged level v merged hmerged).append (hmore rest hrest)
    · refine ⟨hmore, fun own h => ?_⟩
      obtain ⟨entry, rest, hentry, hrest, rfl⟩ := both_ok h
      obtain ⟨key, value, -, hvalue, rfl⟩ := both_ok hentry
      exact List.forall_mem_cons.mpr ⟨distinct_build level v value hvalue, hown rest hrest⟩

theorem distinct_buildMerged (level : Nat) : ∀ (n : Node) (entries : List (Scalar × Tree)),
    buildMerged level n = .ok entries → DistinctValues entries
  | .map tag pairs, entries, h => by
    rw [buildMerged] at h
    obtain ⟨more, own, hmore, hown, rfl⟩ := both_ok h
    have hpairs := distinct_buildPairs level pairs
    exact (hpairs.1 more hmore).append (hpairs.2 own hown)
  | .seq tag items, entries, h => by
    rw [buildMerged] at h
    exact distinct_buildMergedItems level items entries h
  | .scalar tag text, entries, h => by
    rw [buildMerged] at h
    cases h
  | .loop anchor, entries, h => by
    rw [buildMerged] at h
    exact Except.ok.inj h ▸ distinct_again

theorem distinct_buildMergedItems (level : Nat) :
    ∀ (items : List Node) (entries : List (Scalar × Tree)),
    buildMergedItems level items = .ok entries → DistinctValues entries
  | [], entries, h => by
    rw [buildMergedItems] at h
    exact Except.ok.inj h ▸ fun _ he => absurd he List.not_mem_nil
  | .map tag pairs :: r, entries, h => by
    rw [buildMergedItems] at h
    obtain ⟨later, first, hlater, hfirst, rfl⟩ := both_ok h
    obtain ⟨more, own, hmore, hown, rfl⟩ := both_ok hfirst
    have hpairs := distinct_buildPairs level pairs
    exact (distinct_buildMergedItems level r later hlater).append
      ((hpairs.1 more hmore).append (hpairs.2 own hown))
  | .loop anchor :: r, entries, h => by
    rw [buildMergedItems] at h
    obtain ⟨later, first, hlater, hfirst, rfl⟩ := both_ok h
    exact (distinct_buildMergedItems level r later hlater).append
      (Except.ok.inj hfirst ▸ distinct_again)
  | .scalar tag text :: r, entries, h => by
    rw [buildMergedItems] at h
    · cases h
    · simp
    · simp
  | .seq tag items :: r, entries, h => by
    rw [buildMergedItems] at h
    · cases h
    · simp
    · simp

end

end Node

/-- **The mappings in the outline of a YAML text have distinct keys.** -/
theorem distinct_outline {text : List Char} {t : Tree} (h : outline text = .ok t) :
    Throughout DistinctNode t := by
  unfold outline at h
  split at h
  · cases h
  · obtain rfl := Except.ok.inj h
    exact distinct_scalar .null
  · rename_i node _
    unfold Node.outline Except.mapError at h
    split at h
    · cases h
    · rename_i built hbuilt
      obtain rfl := Except.ok.inj h
      exact Node.distinct_build 0 node built hbuilt

end Yaml

end Compliance
