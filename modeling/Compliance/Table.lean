/-! # Insertion-ordered tables

A table is a list of key-value pairs in the order in which the keys came in. Keys are compared by
`==`, which need not be equality: a key that counts as present keeps its own spelling and place, and
only its value is replaced.

* `get?_insert`, `get?_erase`: what one operation does to every look-up.
* `keys_insert`: a key that is present changes no key; a new one comes last.
-/

namespace Compliance

/-- Pairs in insertion order. -/
abbrev Table (κ : Type u) (α : Type v) := List (κ × α)

namespace Table

variable {κ : Type u} {α : Type v} [BEq κ]

/-- The value under the first key that counts as `k`. -/
def get? : Table κ α → κ → Option α
  | [], _ => none
  | (k', v) :: r, k => if k' == k then some v else get? r k

/-- Some key counts as `k`. -/
def contains (t : Table κ α) (k : κ) : Bool := (get? t k).isSome

/-- Puts `v` under the key that counts as `k`, or under `k` at the end. -/
def insert : Table κ α → κ → α → Table κ α
  | [], k, v => [(k, v)]
  | (k', w) :: r, k, v => if k' == k then (k', v) :: r else (k', w) :: insert r k v

/-- Drops the keys that count as `k`. -/
def erase (t : Table κ α) (k : κ) : Table κ α := t.filter fun e => !(e.1 == k)

def keys (t : Table κ α) : List κ := t.map (·.1)

/-- Inserts the pairs one after the other. -/
def insertAll (t : Table κ α) (pairs : List (κ × α)) : Table κ α :=
  pairs.foldl (fun t e => t.insert e.1 e.2) t

/-- The table of a list of pairs: of keys that count as one, the first spelling and place and the
last value. -/
def ofPairs (pairs : List (κ × α)) : Table κ α := insertAll [] pairs

/-- No two keys count as one. -/
def Distinct (t : Table κ α) : Prop := t.Pairwise fun a b => (a.1 == b.1) = false

theorem get?_cons (k' k : κ) (v : α) (r : Table κ α) :
    get? ((k', v) :: r) k = if k' == k then some v else get? r k := rfl

/-- Inserting under a present key changes no key; a new key comes last. -/
theorem keys_insert (t : Table κ α) (k : κ) (v : α) :
    keys (insert t k v) = if contains t k then keys t else keys t ++ [k] := by
  induction t with
  | nil => rfl
  | cons e r ih =>
    obtain ⟨k', w⟩ := e
    by_cases hk : (k' == k) = true
    · simp [insert, hk, keys, contains, get?_cons]
    · simp only [keys, contains] at ih
      simp only [insert, hk, keys, contains, get?_cons, List.map_cons, ih, Bool.false_eq_true,
        if_false]
      grind

variable [EquivBEq κ]

/-- Keys that count as one find the same value. -/
theorem get?_congr {t : Table κ α} {k l : κ} (h : (k == l) = true) : get? t k = get? t l := by
  induction t with
  | nil => rfl
  | cons e r ih =>
    have : (e.1 == k) = (e.1 == l) := BEq.congr_right h
    simp only [get?, this, ih]

theorem get?_insert (t : Table κ α) (k l : κ) (v : α) :
    get? (insert t k v) l = if k == l then some v else get? t l := by
  induction t with
  | nil => rfl
  | cons e r ih =>
    obtain ⟨k', w⟩ := e
    by_cases hk : (k' == k) = true
    · have : (k' == l) = (k == l) := BEq.congr_left hk
      simp only [insert, hk, if_true, get?_cons, this]
      split <;> rfl
    · have : (k' == l) = true → (k == l) = false := fun hl =>
        Bool.eq_false_iff.2 fun hkl => hk (BEq.trans hl (BEq.symm hkl))
      simp only [insert, hk, Bool.false_eq_true, if_false, get?_cons, ih]
      grind

theorem get?_erase (t : Table κ α) (k l : κ) :
    get? (erase t k) l = if k == l then none else get? t l := by
  induction t with
  | nil => simp [erase, get?]
  | cons e r ih =>
    obtain ⟨k', w⟩ := e
    simp only [erase] at ih ⊢
    by_cases hk : (k' == k) = true
    · have : (k' == l) = (k == l) := BEq.congr_left hk
      simp only [List.filter_cons, hk, Bool.not_true, Bool.false_eq_true, if_false, ih, get?_cons,
        this]
      split <;> rfl
    · have : (k' == l) = true → (k == l) = false := fun hl =>
        Bool.eq_false_iff.2 fun hkl => hk (BEq.trans hl (BEq.symm hkl))
      simp only [List.filter_cons, hk, Bool.not_false, if_true, get?_cons, ih]
      grind

end Table

end Compliance
