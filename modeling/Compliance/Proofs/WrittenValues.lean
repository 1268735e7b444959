import Compliance.Schema.Document
import Compliance.Proofs.LoggedFacts
import Compliance.Proofs.VisitedNodes

/-! # What can be written out

A value that can be written out has only parts that can. A finding can be said where every value
that it shows can be written out, and what stops the rules otherwise is the first value that cannot.

* `Tree.seq_fault?`, `Tree.map_fault?`, `Tree.fault?_of_holds`: a tree and what stands in it.
* `Tree.fault?_unlimited`: without limits everything can be written out.
* `say_of_sayable`: saying what can be said records it.
* `asMapping_of_isMap`, `asMapping_of_not_isMap`, `demand_of_sayable`: a node that has to be a
  mapping.
-/

namespace Compliance

variable {limits : Limits} {inside : Nat}

/-! ## Trees -/

namespace Tree

theorem itemsFault?_eq_none {items : List Tree} :
    itemsFault? limits inside items = none ↔ ∀ t ∈ items, t.fault? limits inside = none := by
  induction items with
  | nil => simp [itemsFault?]
  | cons t r ih => rw [itemsFault?, Option.or_eq_none_iff, ih, List.forall_mem_cons]

theorem entriesFault?_eq_none {entries : List (Scalar × Tree)} :
    entriesFault? limits inside entries = none ↔
      ∀ e ∈ entries, e.1.fault? limits = none ∧ e.2.fault? limits inside = none := by
  induction entries with
  | nil => simp [entriesFault?]
  | cons e r ih =>
    obtain ⟨k, t⟩ := e
    rw [entriesFault?, Option.or_eq_none_iff, Option.or_eq_none_iff, ih, List.forall_mem_cons]

theorem seq_fault? {items : List Tree} : (Tree.seq items).fault? limits inside = none ↔
    limits.depth.any (· ≤ inside) = false ∧
      ∀ t ∈ items, t.fault? limits (inside + 1) = none := by
  rw [fault?, ← itemsFault?_eq_none]
  split <;> simp_all

theorem map_fault? {entries : Mapping} : (Tree.map entries).fault? limits inside = none ↔
    limits.depth.any (· ≤ inside) = false ∧
      ∀ e ∈ entries, e.1.fault? limits = none ∧ e.2.fault? limits (inside + 1) = none := by
  rw [fault?, ← entriesFault?_eq_none]
  split <;> simp_all

/-- Fewer collections around it leave room for as many within. -/
theorem depth_mono {outside : Nat} (hle : outside ≤ inside)
    (h : limits.depth.any (· ≤ inside) = false) : limits.depth.any (· ≤ outside) = false := by
  cases hd : limits.depth with
  | none => rfl
  | some depth =>
    simp only [hd, Option.any_some, decide_eq_false_iff_not] at h ⊢
    omega

mutual

/-- What can be written out can be written out inside fewer collections. -/
theorem fault?_mono {outside inside : Nat} (hle : outside ≤ inside) : ∀ {t : Tree},
    t.fault? limits inside = none → t.fault? limits outside = none
  | .scalar _, h => h
  | .seq items, h => by
    obtain ⟨hdepth, hitems⟩ := seq_fault?.mp h
    exact seq_fault?.mpr ⟨depth_mono hle hdepth, itemsFault?_mono hle items hitems⟩
  | .map entries, h => by
    obtain ⟨hdepth, hentries⟩ := map_fault?.mp h
    exact map_fault?.mpr ⟨depth_mono hle hdepth, entriesFault?_mono hle entries hentries⟩

theorem itemsFault?_mono {outside inside : Nat} (hle : outside ≤ inside) :
    ∀ items : List Tree, (∀ t ∈ items, t.fault? limits (inside + 1) = none) →
      ∀ t ∈ items, t.fault? limits (outside + 1) = none
  | [], _ => fun _ ht => absurd ht List.not_mem_nil
  | _ :: r, h => by
    obtain ⟨hfirst, hrest⟩ := List.forall_mem_cons.mp h
    exact List.forall_mem_cons.mpr
      ⟨fault?_mono (Nat.succ_le_succ hle) hfirst, itemsFault?_mono hle r hrest⟩

theorem entriesFault?_mono {outside inside : Nat} (hle : outside ≤ inside) :
    ∀ entries : List (Scalar × Tree),
      (∀ e ∈ entries, e.1.fault? limits = none ∧ e.2.fault? limits (inside + 1) = none) →
      ∀ e ∈ entries, e.1.fault? limits = none ∧ e.2.fault? limits (outside + 1) = none
  | [], _ => fun _ he => absurd he List.not_mem_nil
  | (_, _) :: r, h => by
    obtain ⟨⟨hkey, hvalue⟩, hrest⟩ := List.forall_mem_cons.mp h
    exact List.forall_mem_cons.mpr
      ⟨⟨hkey, fault?_mono (Nat.succ_le_succ hle) hvalue⟩, entriesFault?_mono hle r hrest⟩

end

/-- **What stands in a tree that can be written out** can be written out by itself. -/
theorem fault?_of_within {t u : Tree} (hu : Within u t) (h : t.fault? limits inside = none) :
    u.fault? limits 0 = none := by
  induction hu generalizing inside with
  | here => exact fault?_mono (Nat.zero_le inside) h
  | under he _ ih => exact ih ((map_fault?.mp h).2 _ he).2
  | among ht _ ih => exact ih ((seq_fault?.mp h).2 _ ht)

theorem fault?_of_holds {t u : Tree} (hu : t.Holds u) (h : t.fault? limits 0 = none) :
    u.fault? limits 0 = none := by
  rcases hu with hu | ⟨entries, key, value, hm, he, rfl⟩
  · exact fault?_of_within hu h
  · rw [fault?]
    exact ((map_fault?.mp (fault?_of_within hm h)).2 _ he).1

theorem scalar_fault?_unlimited (s : Scalar) : s.fault? {} = none := by
  cases s <;> rfl

mutual

theorem fault?_unlimited : ∀ (t : Tree) (inside : Nat), t.fault? {} inside = none
  | .scalar s, _ => scalar_fault?_unlimited s
  | .seq items, inside => seq_fault?.mpr ⟨rfl, itemsFault?_unlimited items (inside + 1)⟩
  | .map entries, inside => map_fault?.mpr ⟨rfl, entriesFault?_unlimited entries (inside + 1)⟩

theorem itemsFault?_unlimited : ∀ (items : List Tree) (inside : Nat),
    ∀ t ∈ items, t.fault? {} inside = none
  | [], _ => fun _ ht => absurd ht List.not_mem_nil
  | t :: r, inside => List.forall_mem_cons.mpr
    ⟨fault?_unlimited t inside, itemsFault?_unlimited r inside⟩

theorem entriesFault?_unlimited : ∀ (entries : List (Scalar × Tree)) (inside : Nat),
    ∀ e ∈ entries, e.1.fault? {} = none ∧ e.2.fault? {} inside = none
  | [], _ => fun _ he => absurd he List.not_mem_nil
  | (k, t) :: r, inside => List.forall_mem_cons.mpr
    ⟨⟨scalar_fault?_unlimited k, fault?_unlimited t inside⟩, entriesFault?_unlimited r inside⟩

end

end Tree

/-! ## Findings -/

theorem Wording.fault?_eq_none {wording : Wording} :
    wording.fault? limits = none ↔ ∀ p ∈ wording, p.fault? limits = none :=
  List.findSome?_eq_none_iff

theorem Wording.fault?_unlimited (wording : Wording) : wording.fault? {} = none :=
  fault?_eq_none.mpr fun p _ => by
    cases p with
    | fixed s => rfl
    | plain s => exact Tree.scalar_fault?_unlimited s
    | tree t => exact t.fault?_unlimited 0

theorem spell_of_sayable {wording : Wording} (h : wording.fault? limits = none) :
    spell limits wording = .ok wording.text := by
  rw [spell, h]

theorem say_of_sayable : ∀ {findings : List Finding},
    (∀ f ∈ findings, f.wording.fault? limits = none) →
    say limits findings = .log (messages findings)
  | [], _ => rfl
  | f :: findings, h => by
    obtain ⟨hfirst, hrest⟩ := List.forall_mem_cons.mp h
    have hsay : say limits findings = .log (messages findings) := say_of_sayable hrest
    unfold say at hsay ⊢
    rw [Logged.each, spell_of_sayable hfirst, hsay]
    rfl

theorem say_unlimited (findings : List Finding) : say {} findings = .log (messages findings) :=
  say_of_sayable fun f _ => f.wording.fault?_unlimited

/-! ## Nodes that have to be mappings -/

theorem asMapping_of_isMap {node : Tree} (h : node.isMap = true) (what : String) :
    node.asMapping what = .ok node.entries := by
  cases node with
  | map entries => rfl
  | scalar s => cases h
  | seq items => cases h

theorem asMapping_of_not_isMap {node : Tree} (h : node.isMap = false) (what : String) :
    ∃ e, node.asMapping what = .error e := by
  cases node with
  | map entries => cases h
  | scalar s =>
    unfold Tree.asMapping
    dsimp only
    split <;> exact ⟨_, rfl⟩
  | seq items => exact ⟨_, rfl⟩

/-- A node that has to be a mapping, where its place can be said. -/
theorem demand_of_sayable {what : Wording} (h : what.fault? limits = none) (node : Tree) :
    Schema.demand limits what node =
      .ofExcept ((node.asMapping what.text).mapError .kind) := by
  rw [Schema.demand, spell_of_sayable h]
  rfl

end Compliance
