import Compliance.Proofs.MergeInvariant
import Compliance.Proofs.UnionFacts

/-! # Checked trees

A tree passes its check when every node in it is of a known kind. Merging makes a tree of the keys,
items and scalars that it was given, so what it makes passes too.

* `KnownNode`: what the check says of one node, with everything in it where the node is a list.
* `check_seq`, `check_map`: what the check asks of a list and of a mapping.
* `throughout_of_check`, `check_of_throughout`: a tree passes the check exactly if it has known
  nodes throughout.
* `keeps_knownNode`: every merge keeps known nodes.
-/

namespace Compliance.Tree

/-- A node of a known kind with known keys; a list is checked as a whole. -/
def KnownNode : Tree → Prop
  | .scalar s => ∃ k, s.kind? = .ok k
  | .seq items => ∀ t ∈ items, t.check = .ok ()
  | .map entries => ∀ e ∈ entries, ∃ k, e.1.kind? = .ok k

theorem KnownNode.kind {t : Tree} (h : KnownNode t) : ∃ k, t.kind? = .ok k := by
  cases t with
  | scalar s => exact h
  | seq items => exact ⟨.sequence, rfl⟩
  | map entries => exact ⟨.mapping, rfl⟩

/-! ## The check -/

theorem checkItems_eq_ok {items : List Tree} :
    checkItems items = .ok () ↔ ∀ t ∈ items, t.check = .ok () := by
  induction items with
  | nil => simp [checkItems]
  | cons t r ih =>
    rw [checkItems, List.forall_mem_cons, ← ih]
    cases t.check with
    | error e => simp
    | ok u => simp

theorem checkEntries_eq_ok {entries : List (Scalar × Tree)} :
    checkEntries entries = .ok () ↔
      ∀ e ∈ entries, (∃ k, e.1.kind? = .ok k) ∧ e.2.check = .ok () := by
  induction entries with
  | nil => simp [checkEntries]
  | cons e r ih =>
    obtain ⟨key, t⟩ := e
    rw [checkEntries, List.forall_mem_cons, ← ih]
    cases key.kind? with
    | error e => simp
    | ok k =>
      cases t.check with
      | error e => simp
      | ok u => simp

theorem check_seq {items : List Tree} :
    (Tree.seq items).check = .ok () ↔ ∀ t ∈ items, t.check = .ok () := by
  rw [check, checkItems_eq_ok]

theorem check_map {entries : Mapping} :
    (Tree.map entries).check = .ok () ↔
      ∀ e ∈ entries, (∃ k, e.1.kind? = .ok k) ∧ e.2.check = .ok () := by
  rw [check, checkEntries_eq_ok]

theorem check_scalar {s : Scalar} : (Tree.scalar s).check = .ok () ↔ ∃ k, s.kind? = .ok k := by
  rw [check]
  cases s.kind? with
  | error e => simp [Except.map]
  | ok k => simp [Except.map]

theorem knownNode_of_check {t : Tree} (h : t.check = .ok ()) : KnownNode t := by
  cases t with
  | scalar s => exact check_scalar.mp h
  | seq items => exact check_seq.mp h
  | map entries => exact fun e he => (check_map.mp h e he).1

theorem check_of_reaches {t u : Tree} (h : t.check = .ok ()) (hr : Reaches u t) :
    u.check = .ok () := by
  induction hr with
  | here => exact h
  | under he _ ih => exact ih (check_map.mp h _ he).2

/-- **A checked tree has known nodes throughout.** -/
theorem throughout_of_check {t : Tree} (h : t.check = .ok ()) : Throughout KnownNode t :=
  fun _ hr => knownNode_of_check (check_of_reaches h hr)

mutual

/-- **A tree with known nodes throughout passes the check.** -/
theorem check_of_throughout : ∀ {t : Tree}, Throughout KnownNode t → t.check = .ok ()
  | .scalar _, h => check_scalar.mpr h.here
  | .seq _, h => check_seq.mpr h.here
  | .map entries, h => by
    obtain ⟨hkeys, hvalues⟩ := throughout_map.mp h
    exact check_map.mpr fun e he => ⟨hkeys e he, check_of_entries entries hvalues e he⟩

theorem check_of_entries : ∀ entries : List (Scalar × Tree),
    (∀ e ∈ entries, Throughout KnownNode e.2) → ∀ e ∈ entries, e.2.check = .ok ()
  | [], _ => fun _ he => absurd he List.not_mem_nil
  | (_, _) :: r, h => by
    obtain ⟨hfirst, hrest⟩ := List.forall_mem_cons.mp h
    exact List.forall_mem_cons.mpr ⟨check_of_throughout hfirst, check_of_entries r hrest⟩

end

/-! ## Merging -/

theorem knownNode_of_subset {es kept : Mapping} (h : KnownNode (.map es))
    (hsub : ∀ e ∈ kept, e ∈ es) : KnownNode (.map kept) := fun e he => h e (hsub e he)

/-- **Every merge keeps known nodes**: its keys and items are those of the base or the override. -/
theorem keeps_knownNode (mode : Merge.Mode) : Merge.Keeps mode KnownNode KnownNode where
  scalar _ h _ := h
  replaced _ _ h _ := h
  united existing items _ hexisting hitems t ht := by
    rcases Merge.mem_unionItems ht with hold | ⟨hnew, -⟩
    · exact hexisting (List.ne_nil_of_mem hold) t hold
    · exact hitems t hnew
  empty := fun _ he => absurd he List.not_mem_nil
  insert m entries key t u hm hentries hin e he := by
    rcases Table.mem_insert he with hold | ⟨-, hnew | hkey⟩
    · exact hm e hold
    · exact hnew ▸ hentries _ hin
    · obtain ⟨e', he', heq⟩ := List.mem_map.mp hkey
      exact heq ▸ hm e' he'
  erase m key hm e he := hm e (Table.mem_erase.mp he).1

end Compliance.Tree
