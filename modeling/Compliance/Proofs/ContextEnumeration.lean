import Compliance.Proofs.ContextCoverage
import Mathlib.Data.Int.CardIntervalMod
import Mathlib.Data.Nat.ChineseRemainder

/-! # Which combinations of values the contexts take

There are as many contexts as the value counts multiply to, but the settings are counted round side
by side. So the contexts come back after the least common multiple of the counts, and they are the
full product only where no two counts have a common factor.

* `valueCounts`, `positions`, `pick`: how many values there are, where a context stands in each
  list, and the context that stands at given places.
* `expandConfines_eq`: the contexts are those at the positions taken, in order.
* `positions_eq_iff`: two contexts stand at the same places if they are a period apart.
* `countP_mod`: how often a place is taken; `nodup_round`: one period takes no combination twice.
* `exists_position`: counts without common factors leave out no combination; by the remainder
  theorem, setting by setting.
* `coprime_of_full`: and no other counts do.
* `expandConfines_cycle`: the enumeration as a whole.
-/

namespace Compliance

namespace Confine

/-- How many values each setting has. -/
def valueCounts (confine : Mapping) : List Nat := confine.map fun e => e.2.asList.length

/-- Where the context with number `i` stands in lists of the given lengths. -/
def positions (counts : List Nat) (i : Nat) : List Nat := counts.map fun n => i % n

/-- The positions of all contexts in order. -/
def taken (counts : List Nat) : List (List Nat) := (List.range counts.prod).map (positions counts)

/-- The least common multiple of the counts, after which the contexts come back. -/
def period (counts : List Nat) : Nat := counts.foldr Nat.lcm 1

/-- The context that takes the values at the given positions. -/
def pick (confine : Mapping) (places : List Nat) : Mapping :=
  confine.zipWith (fun e p => (e.1, e.2.asList.getD p .null)) places

/-- A combination of positions: one in each list. -/
def Combination (counts places : List Nat) : Prop := List.Forall₂ (· < ·) places counts

variable {counts : List Nat}

/-! ## Contexts and positions -/

theorem contextCount_eq (confine : Mapping) : contextCount confine = (valueCounts confine).prod :=
  List.prod_eq_foldl_nat.symm

theorem contextAt_eq (confine : Mapping) (i : Nat) :
    contextAt confine i = pick confine (positions (valueCounts confine) i) := by
  simp [contextAt, pick, positions, valueCounts, List.zipWith_map_right, List.zipWith_self]

/-- **The contexts are those at the positions taken.** -/
theorem expandConfines_eq {confine : Mapping} (h : confine ≠ []) :
    expandConfines confine = (taken (valueCounts confine)).map (pick confine) := by
  have hempty : confine.isEmpty = false := List.isEmpty_eq_false_iff.mpr h
  rw [expandConfines, hempty, taken, List.map_map, contextCount_eq]
  exact List.map_congr_left fun i _ => contextAt_eq confine i

theorem keys_pick {confine : Mapping} {places : List Nat}
    (h : places.length = confine.length) : (pick confine places).keys = confine.keys := by
  induction confine generalizing places with
  | nil => rfl
  | cons e r ih =>
    cases places with
    | nil => cases h
    | cons p places =>
      have hr := ih (Nat.succ.inj h)
      simp only [pick, Table.keys, List.zipWith_cons_cons, List.map_cons] at hr ⊢
      rw [hr]

/-- Where no list repeats a value, a context shows where it stands. -/
theorem pick_inj {confine : Mapping} (hd : ∀ e ∈ confine, e.2.asList.Nodup) :
    ∀ {ps qs : List Nat}, Combination (valueCounts confine) ps →
      Combination (valueCounts confine) qs → pick confine ps = pick confine qs → ps = qs := by
  induction confine with
  | nil =>
    intro ps qs hp hq _
    rw [List.forall₂_nil_right_iff.mp hp, List.forall₂_nil_right_iff.mp hq]
  | cons e r ih =>
    intro ps qs hp hq h
    cases hp with
    | cons hp hps =>
      cases hq with
      | cons hq hqs =>
        obtain ⟨hvalue, hrest⟩ := List.cons.inj h
        have hsame := (Prod.mk.inj hvalue).2
        rw [List.getD_eq_getElem _ _ hp, List.getD_eq_getElem _ _ hq] at hsame
        rw [(hd e List.mem_cons_self).getElem_inj_iff.mp hsame,
          ih (fun e he => hd e (List.mem_cons_of_mem _ he)) hps hqs hrest]

/-! ## Periods -/

theorem dvd_period {n : Nat} (h : n ∈ counts) : n ∣ period counts := by
  induction counts with
  | nil => cases h
  | cons m r ih =>
    rcases List.mem_cons.mp h with rfl | hr
    · exact Nat.dvd_lcm_left _ _
    · exact (ih hr).trans (Nat.dvd_lcm_right _ _)

theorem period_dvd {k : Nat} (h : ∀ n ∈ counts, n ∣ k) : period counts ∣ k := by
  induction counts with
  | nil => exact Nat.one_dvd k
  | cons n r ih =>
    exact Nat.lcm_dvd (h n List.mem_cons_self) (ih fun m hm => h m (List.mem_cons_of_mem _ hm))

theorem period_dvd_prod (counts : List Nat) : period counts ∣ counts.prod :=
  period_dvd fun _ hn => List.dvd_prod hn

theorem prod_pos (h : 0 ∉ counts) : 0 < counts.prod :=
  List.prod_pos_iff_forall_pos_nat.mpr fun _ hn =>
    Nat.pos_of_ne_zero fun hzero => h (hzero ▸ hn)

theorem period_pos (h : 0 ∉ counts) : 0 < period counts :=
  Nat.pos_of_dvd_of_pos (period_dvd_prod counts) (prod_pos h)

theorem modEq_period {i j : Nat} (h : ∀ n ∈ counts, i ≡ j [MOD n]) :
    i ≡ j [MOD period counts] := by
  induction counts with
  | nil => exact Nat.modEq_one
  | cons n r ih =>
    exact Nat.mod_lcm (h n List.mem_cons_self) (ih fun m hm => h m (List.mem_cons_of_mem _ hm))

/-- **Two contexts stand at the same places exactly if they are the same modulo the period.** -/
theorem positions_eq_iff (counts : List Nat) (i j : Nat) :
    positions counts i = positions counts j ↔ i ≡ j [MOD period counts] := by
  unfold positions
  rw [List.map_inj_left]
  exact ⟨fun h => modEq_period h, fun h n hn => h.of_dvd (dvd_period hn)⟩

theorem combination_positions (h : 0 ∉ counts) (i : Nat) :
    Combination counts (positions counts i) := by
  unfold Combination positions
  rw [List.forall₂_map_left_iff, List.forall₂_same]
  intro n hn
  exact Nat.mod_lt i (Nat.pos_of_ne_zero fun hzero => h (hzero ▸ hn))

/-! ## How often -/

/-- Of numbers in whole rounds, each remainder has the same share. -/
theorem countP_mod {n k : Nat} (hn : 0 < n) (hk : n ∣ k) (v : Nat) :
    (List.range k).countP (fun i => decide (i ≡ v [MOD n])) = k / n := by
  have hcount : k.count (· ≡ v [MOD n]) = k / n := by
    rw [Nat.count_modEq_card k hn, Nat.mod_eq_zero_of_dvd hk]
    rfl
  exact hcount

theorem nodup_round (counts : List Nat) :
    ((List.range (period counts)).map (positions counts)).Nodup := by
  refine List.nodup_range.map_on fun i hi j hj h => ?_
  have hmod : i ≡ j [MOD period counts] := (positions_eq_iff counts i j).mp h
  exact hmod.eq_of_lt_of_lt (List.mem_range.mp hi) (List.mem_range.mp hj)

theorem mem_taken_iff (h : 0 ∉ counts) {places : List Nat} :
    places ∈ taken counts ↔ places ∈ (List.range (period counts)).map (positions counts) := by
  simp only [taken, List.mem_map, List.mem_range]
  constructor
  · rintro ⟨i, -, rfl⟩
    refine ⟨i % period counts, Nat.mod_lt i (period_pos h), ?_⟩
    exact (positions_eq_iff counts _ i).mpr (Nat.mod_modEq i _)
  · rintro ⟨i, hi, rfl⟩
    have hle : period counts ≤ counts.prod := Nat.le_of_dvd (prod_pos h) (period_dvd_prod counts)
    exact ⟨i, Nat.lt_of_lt_of_le hi hle, rfl⟩

/-- There are as many combinations among the contexts as a period has contexts. -/
theorem length_dedup_taken (h : 0 ∉ counts) : (taken counts).dedup.length = period counts := by
  have hperm : (taken counts).dedup.Perm ((List.range (period counts)).map (positions counts)) := by
    refine (List.perm_ext_iff_of_nodup (List.nodup_dedup _) (nodup_round counts)).mpr ?_
    intro places
    rw [List.mem_dedup, mem_taken_iff h]
  rw [hperm.length_eq, List.length_map, List.length_range]

theorem count_taken (h : 0 ∉ counts) {places : List Nat} (hp : places ∈ taken counts) :
    (taken counts).count places = counts.prod / period counts := by
  obtain ⟨i, -, rfl⟩ := List.mem_map.mp hp
  have hsame : ∀ j, (positions counts j == positions counts i) =
      decide (j ≡ i [MOD period counts]) := fun j => by
    rw [Bool.eq_iff_iff, beq_iff_eq, decide_eq_true_iff, positions_eq_iff]
  rw [← countP_mod (period_pos h) (period_dvd_prod counts) i, List.count, taken, List.countP_map]
  exact List.countP_congr fun j _ => by rw [Function.comp_apply, hsame j]

theorem countP_place (h : 0 ∉ counts) {j n p : Nat} (hj : counts[j]? = some n) (hp : p < n) :
    (taken counts).countP (fun places => decide (places[j]? = some p)) = counts.prod / n := by
  have hmem : n ∈ counts := List.mem_of_getElem? hj
  have hn : 0 < n := Nat.pos_of_ne_zero fun hzero => h (hzero ▸ hmem)
  rw [← countP_mod hn (List.dvd_prod hmem) p, taken, List.countP_map]
  refine List.countP_congr fun i _ => ?_
  simp only [Function.comp_apply, positions, List.getElem?_map, hj, Option.map_some,
    Option.some.injEq, decide_eq_true_eq, Nat.ModEq, Nat.mod_eq_of_lt hp]

/-! ## All combinations -/

/-- **Counts without common factors leave out no combination.** -/
theorem exists_position {places : List Nat} (hc : counts.Pairwise Nat.Coprime)
    (h : Combination counts places) : ∃ i < counts.prod, positions counts i = places := by
  induction h with
  | nil => exact ⟨0, by simp, rfl⟩
  | @cons p n places counts hp hrest ih =>
    obtain ⟨hfirst, hothers⟩ := List.pairwise_cons.mp hc
    obtain ⟨i, hi, rfl⟩ := ih hothers
    -- the remainder theorem puts the first setting and all others together
    have hcop : Nat.Coprime n counts.prod := Nat.coprime_list_prod_right_iff.mpr hfirst
    obtain ⟨k, hlt, hkn, hkr⟩ : ∃ k < n * counts.prod, k ≡ p [MOD n] ∧ k ≡ i [MOD counts.prod] :=
      ⟨Nat.chineseRemainder hcop p i,
        Nat.chineseRemainder_lt_mul hcop p i (Nat.ne_zero_of_lt hp) (Nat.ne_zero_of_lt hi),
        (Nat.chineseRemainder hcop p i).2⟩
    rw [List.prod_cons]
    refine ⟨k, hlt, ?_⟩
    have hhead : k % n = p := by rw [hkn, Nat.mod_eq_of_lt hp]
    have htail : positions counts k = positions counts i :=
      List.map_inj_left.mpr fun m hm => hkr.of_dvd (List.dvd_prod hm)
    rw [← htail, positions, List.map_cons, hhead]
    rfl

/-- **Where no combination is left out, no two counts have a common factor.** -/
theorem coprime_of_full (h : 0 ∉ counts)
    (hfull : ∀ places, Combination counts places → ∃ i, positions counts i = places) :
    counts.Pairwise Nat.Coprime := by
  induction counts with
  | nil => exact List.Pairwise.nil
  | cons n r ih =>
    have hn : 0 < n := Nat.pos_of_ne_zero fun hzero => h (hzero ▸ List.mem_cons_self)
    have hr : 0 ∉ r := fun hzero => h (List.mem_cons_of_mem _ hzero)
    refine List.pairwise_cons.mpr ⟨fun m hm => ?_, ih hr fun places hp => ?_⟩
    · -- some number is one modulo `n` and zero modulo all others
      have hvalid : Combination (n :: r) (1 % n :: positions r 0) :=
        .cons (Nat.mod_lt 1 hn) (combination_positions hr 0)
      obtain ⟨i, hi⟩ := hfull _ hvalid
      obtain ⟨hone, hzero⟩ := List.cons.inj hi
      have hdvd : m ∣ i := Nat.dvd_of_mod_eq_zero (by
        have hmod := List.map_inj_left.mp hzero m hm
        rwa [Nat.zero_mod] at hmod)
      have hcop : Nat.Coprime i n :=
        Nat.coprime_of_mul_modEq_one 1 (by rw [Nat.mul_one]; exact hone)
      exact (hcop.coprime_dvd_left hdvd).symm
    · obtain ⟨i, hi⟩ := hfull (0 :: places) (.cons hn hp)
      exact ⟨i, (List.cons.inj hi).2⟩

theorem taken_full_iff (h : 0 ∉ counts) :
    (∀ places, Combination counts places → places ∈ taken counts) ↔
      counts.Pairwise Nat.Coprime := by
  constructor
  · intro hfull
    refine coprime_of_full h fun places hp => ?_
    obtain ⟨i, -, hi⟩ := List.mem_map.mp (hfull places hp)
    exact ⟨i, hi⟩
  · intro hc places hp
    obtain ⟨i, hi, rfl⟩ := exists_position hc hp
    exact List.mem_map.mpr ⟨i, List.mem_range.mpr hi, rfl⟩

end Confine

open Confine

/-- **The contexts of a clause with settings.** They take the positions `i % n`, side by side, with
the settings in the order of the clause; where no list repeats a value, the positions can be read
off the contexts. There are none if some setting has no value. Otherwise there are as many as the
value counts multiply to, and those that are the same modulo the least common multiple of the counts
stand at the same places: so many combinations are taken, each equally often, every place of every
list is taken equally often, and every combination is taken exactly if the counts are pairwise
coprime. -/
theorem expandConfines_cycle (confine : Mapping) (hsome : confine ≠ []) :
    let counts := valueCounts confine
    expandConfines confine = (taken counts).map (pick confine) ∧
    ((∀ e ∈ confine, e.2.asList.Nodup) → ∀ ps qs, Combination counts ps → Combination counts qs →
      pick confine ps = pick confine qs → ps = qs) ∧
    (0 ∈ counts → expandConfines confine = []) ∧
    (0 ∉ counts →
      (expandConfines confine).length = counts.prod ∧
      (∀ context ∈ expandConfines confine, context.keys = confine.keys) ∧
      (∀ places ∈ taken counts, Combination counts places) ∧
      (∀ i < counts.prod, ∀ j < counts.prod,
        (taken counts)[i]? = (taken counts)[j]? ↔ i ≡ j [MOD period counts]) ∧
      (taken counts).dedup.length = period counts ∧
      (∀ places ∈ taken counts, (taken counts).count places = counts.prod / period counts) ∧
      (∀ j n p : Nat, counts[j]? = some n → p < n →
        (taken counts).countP (fun places => decide (places[j]? = some p)) = counts.prod / n) ∧
      ((∀ places, Combination counts places → places ∈ taken counts) ↔
        counts.Pairwise Nat.Coprime)) := by
  intro counts
  have hall : expandConfines confine = (taken counts).map (pick confine) := expandConfines_eq hsome
  refine ⟨hall, fun hd ps qs => pick_inj hd, fun hzero => ?_, fun hpos => ?_⟩
  · rw [hall, taken, List.prod_eq_zero hzero]
    rfl
  · have hvalid : ∀ places ∈ taken counts, Combination counts places := fun places hp => by
      obtain ⟨i, -, rfl⟩ := List.mem_map.mp hp
      exact combination_positions hpos i
    refine ⟨?_, fun context hc => ?_, hvalid, fun i hi j hj => ?_, length_dedup_taken hpos,
      fun places hp => count_taken hpos hp, fun j n p hj hp => countP_place hpos hj hp,
      taken_full_iff hpos⟩
    · rw [hall, List.length_map, taken, List.length_map, List.length_range]
    · rw [hall] at hc
      obtain ⟨places, hp, rfl⟩ := List.mem_map.mp hc
      have hlength : places.length = counts.length := (hvalid places hp).length_eq
      exact keys_pick (hlength.trans (List.length_map _))
    · have hat : ∀ k < counts.prod, (taken counts)[k]? = some (positions counts k) := fun k hk => by
        rw [taken, List.getElem?_map, List.getElem?_range hk]
        rfl
      rw [hat i hi, hat j hj, Option.some_inj]
      exact positions_eq_iff counts i j

/-- Two settings with two values each. -/
def sideBySide : Mapping := [
  (.str "os", .seq [.str "RedHat", .str "CentOS"]),
  (.str "arch", .seq [.str "x86_64", .str "aarch64"])]

/-- Of the four contexts two are the same as the other two, and two combinations are never taken. -/
theorem expandConfines_cycle_sideBySide :
    sideBySide ≠ [] ∧ (expandConfines sideBySide).length = 4 ∧
    (taken (valueCounts sideBySide)).dedup.length = 2 ∧
    (taken (valueCounts sideBySide)).count [1, 1] = 2 ∧
    ¬ ∀ places, Combination (valueCounts sideBySide) places →
      places ∈ taken (valueCounts sideBySide) := by
  have hsome : sideBySide ≠ [] := List.cons_ne_nil _ _
  obtain ⟨-, -, -, hpositive⟩ := expandConfines_cycle sideBySide hsome
  obtain ⟨hlength, -, -, -, hdistinct, hequal, -, hfull⟩ := hpositive (by decide)
  have hperiod : period (valueCounts sideBySide) = 2 := by decide
  refine ⟨hsome, hlength, hdistinct.trans hperiod, ?_, fun hall => ?_⟩
  · rw [hequal [1, 1] (by decide), hperiod]
    rfl
  · exact absurd (hfull.mp hall) (by decide)

end Compliance
