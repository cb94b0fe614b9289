import Mathlib.Algebra.Order.BigOperators.Group.Finset
import Mathlib.Data.Real.Basic
import PathSelection.Proofs.Random.Sources
import PathSelection.Proofs.Rounding.Run

namespace PathSelection.Rounding

open scoped BigOperators

/-- What an entry counts as in the end: one if its index is taken and zero if not. -/
noncomputable def cut (e : ℝ) : ℝ := if 0.5 < e then 1 else 0

/-- How far an entry of the unit interval may be from what it counts as. -/
noncomputable def slack (e : ℝ) : ℝ := if isOpen e then 0.5 else 0.001

theorem abs_cut_sub_lt {e : ℝ} (h0 : 0 ≤ e) (h1 : e ≤ 1) (h : isOpen e = false) :
    |cut e - e| < 0.001 := by
  unfold cut
  rw [isOpen_real_eq_false] at h
  rcases h with h | h
  · rw [if_neg (not_lt.mpr (by linarith)), zero_sub, abs_neg, abs_of_nonneg h0]
    exact h
  · rw [if_pos (by linarith), abs_of_nonneg (sub_nonneg.mpr h1)]
    linarith

theorem abs_cut_sub_le_slack {e : ℝ} (h0 : 0 ≤ e) (h1 : e ≤ 1) : |cut e - e| ≤ slack e := by
  unfold slack
  split
  · unfold cut
    split
    · next h =>
      rw [abs_of_nonneg (sub_nonneg.mpr h1)]
      linarith
    · next h =>
      rw [zero_sub, abs_neg, abs_of_nonneg h0]
      exact not_lt.mp h
  · next h => exact (abs_cut_sub_lt h0 h1 (Bool.not_eq_true _ ▸ h)).le

theorem sum_eq_sum_getD (xs : List ℝ) : xs.sum = ∑ k ∈ Finset.range xs.length, xs.getD k 0 := by
  induction xs with
  | nil => simp
  | cons x xs ih =>
    rw [List.sum_cons, List.length_cons, Finset.sum_range_succ', ih, add_comm]
    simp only [List.getD_cons_succ, List.getD_cons_zero]

theorem sum_slack (entries : List ℝ) :
    ∑ k ∈ Finset.range entries.length, slack (entries.getD k 0) =
      0.001 * entries.length + 0.499 * (openPositions entries).card := by
  have hslack : ∀ k, slack (entries.getD k 0) =
      0.001 + if isOpen (entries.getD k 0) = true then 0.499 else 0 := by
    intro k
    unfold slack
    split <;> norm_num
  simp only [hslack]
  rw [Finset.sum_add_distrib, Finset.sum_const, Finset.card_range, nsmul_eq_mul,
    ← Finset.sum_filter, Finset.sum_const, nsmul_eq_mul]
  unfold openPositions
  ring

variable {entries : List ℝ}

theorem mem_taken {i : ℕ} : i ∈ taken entries ↔ i < entries.length ∧ 0.5 < entries.getD i 0 := by
  unfold taken
  rw [List.mem_filter, List.mem_range, Scalar.zero_real, decide_eq_true_iff]

theorem pairwise_lt_taken : (taken entries).Pairwise (· < ·) :=
  List.pairwise_lt_range.filter _

theorem length_taken :
    ((taken entries).length : ℝ) = ∑ k ∈ Finset.range entries.length, cut (entries.getD k 0) := by
  have hcard : (taken entries).toFinset =
      (Finset.range entries.length).filter fun k => 0.5 < entries.getD k 0 := by
    ext k
    rw [List.mem_toFinset, mem_taken, Finset.mem_filter, Finset.mem_range]
  have hnodup : (taken entries).Nodup := pairwise_lt_taken.imp fun h => ne_of_lt h
  unfold cut
  rw [← List.toFinset_card_of_nodup hnodup, hcard, Finset.sum_boole]

/-- The distance between the number of indices that are taken and the sum of the entries. -/
theorem taken_sub_sum : ((taken entries).length : ℝ) - entries.sum =
    ∑ k ∈ Finset.range entries.length, (cut (entries.getD k 0) - entries.getD k 0) := by
  rw [length_taken, sum_eq_sum_getD entries, Finset.sum_sub_distrib]

theorem abs_taken_sub_sum_le (hu : InUnit entries) :
    |((taken entries).length : ℝ) - entries.sum| ≤
      0.001 * entries.length + 0.499 * (openPositions entries).card := by
  rw [taken_sub_sum, ← sum_slack]
  calc
    _ ≤ ∑ k ∈ Finset.range entries.length, |cut (entries.getD k 0) - entries.getD k 0| :=
      Finset.abs_sum_le_sum_abs _ _
    _ ≤ _ := Finset.sum_le_sum fun k _ => abs_cut_sub_le_slack (hu k).1 (hu k).2

theorem abs_taken_sub_sum_lt (hu : InUnit entries)
    (hc : (openPositions entries).card < entries.length) :
    |((taken entries).length : ℝ) - entries.sum| <
      0.001 * entries.length + 0.499 * (openPositions entries).card := by
  -- A decided entry is strictly closer to what it counts as than its slack.
  have hdecided : ∃ k ∈ Finset.range entries.length, k ∉ openPositions entries := by
    apply Finset.exists_mem_notMem_of_card_lt_card
    rw [Finset.card_range]
    exact hc
  obtain ⟨k, hk, hclosed⟩ := hdecided
  rw [mem_openPositions, Bool.not_eq_true] at hclosed
  rw [taken_sub_sum, ← sum_slack]
  calc
    _ ≤ ∑ k ∈ Finset.range entries.length, |cut (entries.getD k 0) - entries.getD k 0| :=
      Finset.abs_sum_le_sum_abs _ _
    _ < _ := by
      apply Finset.sum_lt_sum fun k _ => abs_cut_sub_le_slack (hu k).1 (hu k).2
      refine ⟨k, hk, ?_⟩
      rw [slack, hclosed]
      exact abs_cut_sub_lt (hu k).1 (hu k).2 hclosed

theorem eq_of_abs_cast_sub_lt_one {n l : ℕ} (h : |(n : ℝ) - l| < 1) : n = l := by
  have hint : |((n : ℤ) - (l : ℤ) : ℤ)| < 1 := by exact_mod_cast h
  have hzero := Int.abs_lt_one_iff.mp hint
  omega

/-- What rounding ends with: at most one entry is undecided. -/
structure Finished (shares final : List ℝ) : Prop extends Balanced shares final where
  unit : InUnit final
  card_open : (openPositions final).card ≤ 1

namespace Finished

variable {shares final : List ℝ} {l : ℕ}

theorem abs_taken_sub_sum_le (h : Finished shares final) :
    |((taken final).length : ℝ) - shares.sum| ≤ 0.5 + 0.001 * ((shares.length : ℝ) - 1) := by
  have hbound := Rounding.abs_taken_sub_sum_le h.unit
  have hopen : ((openPositions final).card : ℝ) ≤ 1 := by exact_mod_cast h.card_open
  rw [h.sum_eq, h.length_eq] at hbound
  linarith

theorem length_taken_eq (h : Finished shares final) (hsum : |shares.sum - l| ≤ 0.001)
    (hlen : shares.length ≤ 499) : (taken final).length = l := by
  apply eq_of_abs_cast_sub_lt_one
  have hlen' : (shares.length : ℝ) ≤ 499 := by exact_mod_cast hlen
  have htri := abs_sub_le ((taken final).length : ℝ) shares.sum l
  have hbound := h.abs_taken_sub_sum_le
  linarith

/-- Shares whose sum is exact leave room for two more entries. -/
theorem length_taken_eq_of_sum_eq (h : Finished shares final) (hsum : shares.sum = l)
    (hlen : shares.length ≤ 501) : (taken final).length = l := by
  apply eq_of_abs_cast_sub_lt_one
  have hlen' : (shares.length : ℝ) ≤ 501 := by exact_mod_cast hlen
  have hopen : ((openPositions final).card : ℝ) ≤ 1 := by exact_mod_cast h.card_open
  rw [← hsum, ← h.sum_eq]
  rcases lt_or_ge (openPositions final).card final.length with hlt | hge
  · have hbound := abs_taken_sub_sum_lt h.unit hlt
    rw [h.length_eq] at hbound
    linarith
  · have hone : ((final.length : ℕ) : ℝ) ≤ 1 := by exact_mod_cast hge.trans h.card_open
    have hbound := Rounding.abs_taken_sub_sum_le h.unit
    linarith

theorem mem_taken_of_upperEdge_lt (h : Finished shares final) {i : ℕ} (hi : i < shares.length)
    (hp : 0.999 < shares[i]) : i ∈ taken final := by
  rw [← List.getD_eq_getElem shares 0 hi] at hp
  rw [mem_taken, h.length_eq, h.kept i ((isOpen_real_eq_false _).mpr (Or.inr hp))]
  refine ⟨hi, ?_⟩
  linarith

theorem not_mem_taken_of_lt_lowerEdge (h : Finished shares final) {i : ℕ}
    (hi : i < shares.length) (hp : shares[i] < 0.001) : i ∉ taken final := by
  rw [← List.getD_eq_getElem shares 0 hi] at hp
  rw [mem_taken, h.kept i ((isOpen_real_eq_false _).mpr (Or.inl hp))]
  intro htaken
  have hhalf := htaken.2
  linarith

end Finished

theorem sumFits_real (l : ℕ) (shares : List ℝ) :
    sumFits l shares = true ↔ |shares.sum - l| ≤ 0.001 := by
  unfold sumFits
  simp only [Scalar.sum_real, Scalar.abs_real]
  rw [Bool.and_eq_true, Bool.not_eq_true', decide_eq_false_iff_not]
  exact ⟨fun h => not_lt.mp h.2, fun h => ⟨rfl, not_lt.mpr h⟩⟩

section Source

variable {ρ : Type} [DrawSource ρ ℝ] {shares : List ℝ} {rng : ρ}

/-- The entries that dependent rounding holds after up to `n` steps. -/
noncomputable def entriesAfter (shares : List ℝ) (rng : ρ) (n : ℕ) : List ℝ :=
  (settle DrawSource.uniform n (DrawSource.order shares.length rng).1 shares
    (DrawSource.order shares.length rng).2).1

/-- The entries that dependent rounding ends with. -/
noncomputable def finalEntries (shares : List ℝ) (rng : ρ) : List ℝ :=
  entriesAfter shares rng shares.length

theorem inUnit_of_forall_mem (hunit : ∀ p ∈ shares, 0 ≤ p ∧ p ≤ 1) : InUnit shares := by
  intro k
  rcases lt_or_ge k shares.length with hk | hk
  · rw [List.getD_eq_getElem _ _ hk]
    exact hunit _ (List.getElem_mem hk)
  · rw [List.getD_eq_default _ _ hk]
    norm_num

theorem inUnit_entriesAfter
    (horder : (DrawSource.order shares.length rng).1.Perm (List.range shares.length))
    (hunit : ∀ p ∈ shares, 0 ≤ p ∧ p ≤ 1) (n : ℕ) : InUnit (entriesAfter shares rng n) :=
  inUnit_settle (Visits.of_perm horder) (inUnit_of_forall_mem hunit) _ _ _

theorem finished_finalEntries
    (horder : (DrawSource.order shares.length rng).1.Perm (List.range shares.length))
    (hunit : ∀ p ∈ shares, 0 ≤ p ∧ p ≤ 1) : Finished shares (finalEntries shares rng) := by
  have hv : Visits (DrawSource.order shares.length rng).1 shares := Visits.of_perm horder
  refine ⟨balanced_settle hv _ _ _, inUnit_entriesAfter horder hunit _, ?_⟩
  exact card_openPositions_settle hv _ (card_openPositions_le shares) _

/-- What becomes of the entries that the run has come to. -/
theorem dependentRounding_of_settle {l : ℕ} {entries : List ℝ} {source : ρ}
    (hsum : sumFits l shares = true)
    (hsettle : settle DrawSource.uniform shares.length (DrawSource.order shares.length rng).1 shares
      (DrawSource.order shares.length rng).2 = (entries, source)) :
    dependentRounding l shares rng =
      (if (taken entries).length = l then .ok (taken entries)
        else .error (.roundingCardinality l (taken entries).length), source) := by
  have hsettled : settled DrawSource.uniform (DrawSource.order shares.length rng).1 shares
      (DrawSource.order shares.length rng).2 = (taken entries, source) := by
    rw [settled, hsettle]
  unfold dependentRounding
  rw [if_pos hsum]
  dsimp only
  rw [hsettled]
  dsimp only
  split <;> rfl

theorem dependentRounding_fst {l : ℕ} (rng : ρ) (hsum : |shares.sum - l| ≤ 0.001) :
    (dependentRounding l shares rng).1 =
      if (taken (finalEntries shares rng)).length = l then .ok (taken (finalEntries shares rng))
      else .error (.roundingCardinality l (taken (finalEntries shares rng)).length) :=
  congrArg Prod.fst (dependentRounding_of_settle ((sumFits_real l shares).mpr hsum) rfl)

/-- Nothing is taken when at most one share is above the lower edge and that one is not above one
half. -/
theorem taken_finalEntries_eq_nil
    (horder : (DrawSource.order shares.length rng).1.Perm (List.range shares.length)) {i : ℕ}
    (hhalf : shares.getD i 0 ≤ 0.5) (hlow : ∀ k ≠ i, shares.getD k 0 < 0.001) :
    taken (finalEntries shares rng) = [] := by
  -- No step is made: the entry at `i` has no other one from which it could gain.
  have hopen : ∀ k, isOpen (shares.getD k 0) = true → k = i := by
    intro k hk
    by_contra hne
    have hclosed := (isOpen_real_eq_false _).mpr (Or.inl (hlow k hne))
    exact Bool.false_ne_true (hclosed.symm.trans hk)
  have hnone : ∀ j k, ¬ OpenPair shares j k := fun j k hpair =>
    hpair.ne ((hopen j hpair.fst_open).trans (hopen k hpair.snd_open).symm)
  have hfinal : finalEntries shares rng = shares :=
    settle_of_no_pair hnone (Visits.of_perm horder) _ _ _
  rw [hfinal]
  apply List.eq_nil_iff_forall_not_mem.mpr
  intro k hk
  have htaken := (mem_taken.mp hk).2
  by_cases hki : k = i
  · rw [hki] at htaken
    linarith
  · have hsmall := hlow k hki
    linarith

end Source

end PathSelection.Rounding

namespace PathSelection

open Rounding

/-- Rounding with exact numbers, for any visiting order and any draws: all entries stay in the unit
interval and keep their sum, at most one is left undecided in the end, and the number of indices
that are taken is near the sum of the shares. Up to 499 shares are always rounded to `l` indices. -/
theorem dependentRounding_cardinality {ρ : Type} [DrawSource ρ ℝ] (l : ℕ) (shares : List ℝ)
    (rng : ρ) (horder : (DrawSource.order shares.length rng).1.Perm (List.range shares.length))
    (hunit : ∀ p ∈ shares, 0 ≤ p ∧ p ≤ 1) (hsum : |shares.sum - l| ≤ 0.001) :
    (∀ n, (entriesAfter shares rng n).length = shares.length ∧
      (∀ e ∈ entriesAfter shares rng n, 0 ≤ e ∧ e ≤ 1) ∧
      (entriesAfter shares rng n).sum = shares.sum) ∧
    (openPositions (finalEntries shares rng)).card ≤ 1 ∧
    (∃ n, (taken (finalEntries shares rng)).length = n ∧
      (dependentRounding l shares rng).1 =
        (if n = l then .ok (taken (finalEntries shares rng))
          else .error (.roundingCardinality l n)) ∧
      |(n : ℝ) - shares.sum| ≤ 0.5 + 0.001 * ((shares.length : ℝ) - 1)) ∧
    (shares.length ≤ 499 → ∃ chosen, (dependentRounding l shares rng).1 = .ok chosen ∧
      chosen.length = l ∧ chosen.Pairwise (· < ·) ∧ (∀ i ∈ chosen, i < shares.length) ∧
      ∀ i, (hi : i < shares.length) →
        (0.999 < shares[i] → i ∈ chosen) ∧ (shares[i] < 0.001 → i ∉ chosen)) := by
  have hfin := finished_finalEntries horder hunit
  have hresult := dependentRounding_fst rng hsum
  refine ⟨fun n => ?_, hfin.card_open, ⟨_, rfl, hresult, hfin.abs_taken_sub_sum_le⟩, fun hlen => ?_⟩
  · have hbal : Balanced shares (entriesAfter shares rng n) :=
      balanced_settle (Visits.of_perm horder) _ _ _
    refine ⟨hbal.length_eq, fun e he => ?_, hbal.sum_eq⟩
    obtain ⟨k, hk, rfl⟩ := List.mem_iff_getElem.mp he
    rw [← List.getD_eq_getElem _ 0 hk]
    exact inUnit_entriesAfter horder hunit n k
  · have hl := hfin.length_taken_eq hsum hlen
    rw [if_pos hl] at hresult
    refine ⟨_, hresult, hl, pairwise_lt_taken, fun i hi => ?_, fun i hi => ⟨?_, ?_⟩⟩
    · rw [← hfin.length_eq]
      exact (mem_taken.mp hi).1
    · exact hfin.mem_taken_of_upperEdge_lt hi
    · exact hfin.not_mem_taken_of_lt_lowerEdge hi

/-- Four shares, of which one is decided from the start, visited in the order 2, 0, 3, 1. -/
theorem dependentRounding_cardinality_four :
    ∃ chosen, (dependentRounding 2 [0.5, 0.9995, 0.3, 0.2] (Tape.mk [2, 0, 3, 1] fun _ => 0.25)).1 =
      .ok chosen ∧ chosen.length = 2 ∧ 1 ∈ chosen := by
  have hunit : ∀ p ∈ [(0.5 : ℝ), 0.9995, 0.3, 0.2], 0 ≤ p ∧ p ≤ 1 := by
    norm_num
  have hsum : |[(0.5 : ℝ), 0.9995, 0.3, 0.2].sum - (2 : ℕ)| ≤ 0.001 := by
    norm_num [abs_le]
  have h := (dependentRounding_cardinality 2 [0.5, 0.9995, 0.3, 0.2]
    (Tape.mk [2, 0, 3, 1] fun _ => 0.25) (by decide) hunit hsum).2.2.2 (by decide)
  obtain ⟨chosen, hok, hlen, -, -, hmem⟩ := h
  exact ⟨chosen, hok, hlen, (hmem 1 (by decide)).1 (by norm_num)⟩

end PathSelection
