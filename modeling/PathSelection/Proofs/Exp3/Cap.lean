import Mathlib.Algebra.Order.BigOperators.Group.List
import Mathlib.Data.Real.Basic
import Mathlib.Tactic.FieldSimp
import Mathlib.Tactic.Positivity
import PathSelection.Policy.Exp3
import PathSelection.Proofs.Reals

namespace PathSelection.Exp3

/-- The value that the search tests when `capped` heavier weights are capped already. -/
noncomputable def candidate (limit : ℝ) (capped : ℕ) (weights : List ℝ) : ℝ :=
  limit * weights.sum / (1 - capped * limit)

theorem tailSum_real (weights : List ℝ) : tailSum weights = weights.sum := by
  unfold tailSum
  rw [Scalar.zero_real]
  induction weights with
  | nil => rfl
  | cons w lighter ih =>
    rw [List.foldr_cons, ih, List.sum_cons]
    exact add_comm _ _

theorem findCap_cons {limit : ℝ} {capped : ℕ} (hrest : 0 < 1 - capped * limit) (plays : ℕ)
    (w : ℝ) (lighter : List ℝ) :
    findCap limit (plays + 1) capped (w :: lighter) =
      if w < candidate limit capped (w :: lighter) then
        some (candidate limit capped (w :: lighter))
      else findCap limit plays (capped + 1) lighter := by
  rw [findCap]
  simp only [Scalar.zero_real, Scalar.one_real, tailSum_real]
  rw [if_neg (not_le.mpr hrest)]
  rfl

/-- A failed test keeps the next denominator positive, and the next candidate is not larger. -/
theorem candidate_of_failed {limit : ℝ} (hlimit : 0 < limit) {capped : ℕ}
    (hrest : 0 < 1 - capped * limit) {w : ℝ} (hw : 0 < w) {lighter : List ℝ}
    (hsum : 0 < lighter.sum) (hfailed : candidate limit capped (w :: lighter) ≤ w) :
    0 < 1 - (capped + 1 : ℕ) * limit ∧
      candidate limit (capped + 1) lighter ≤ candidate limit capped (w :: lighter) := by
  unfold candidate at hfailed ⊢
  rw [List.sum_cons] at hfailed ⊢
  have hle : limit * (w + lighter.sum) ≤ w * (1 - capped * limit) := (div_le_iff₀ hrest).mp hfailed
  have htail : 0 < limit * lighter.sum := mul_pos hlimit hsum
  have hnext : 1 - ((capped + 1 : ℕ) : ℝ) * limit = 1 - capped * limit - limit := by
    push_cast
    ring
  have hpos : 0 < 1 - capped * limit - limit := by
    -- Otherwise the shares of the lighter weights would have to vanish.
    by_contra hneg
    have hzero := mul_nonpos_of_nonneg_of_nonpos hw.le (not_lt.mp hneg)
    linarith
  rw [hnext]
  refine ⟨hpos, ?_⟩
  have hmul := mul_le_mul_of_nonneg_right hfailed hlimit.le
  rw [div_le_iff₀ hpos, mul_sub, div_mul_cancel₀ _ hrest.ne']
  linarith

/-- A cap for weights in descending order of which the first `heavy` ones reach it, when `capped`
heavier weights count as the cap already. -/
structure Fits (limit : ℝ) (capped heavy : ℕ) (weights : List ℝ) (cap : ℝ) : Prop where
  balance : cap * (1 - (capped + heavy : ℕ) * limit) = limit * (weights.drop heavy).sum
  le_of_mem_take : ∀ w ∈ weights.take heavy, cap ≤ w
  lt_of_mem_drop : ∀ w ∈ weights.drop heavy, w < cap
  le_candidate : cap ≤ candidate limit capped weights

/-- The candidate of a test that succeeds fits without any heavy weight. -/
theorem fits_candidate {limit : ℝ} {capped : ℕ} (hrest : 0 < 1 - capped * limit) {w : ℝ}
    {lighter : List ℝ} (hw : ∀ v ∈ lighter, v ≤ w)
    (hhit : w < candidate limit capped (w :: lighter)) :
    Fits limit capped 0 (w :: lighter) (candidate limit capped (w :: lighter)) := by
  refine ⟨?_, by simp, fun v hv => ?_, le_rfl⟩
  · exact div_mul_cancel₀ _ hrest.ne'
  · rcases List.mem_cons.mp hv with rfl | hv
    · exact hhit
    · exact (hw v hv).trans_lt hhit

/-- After a test that fails the weight is one more heavy one. -/
theorem Fits.cons {limit : ℝ} {capped heavy : ℕ} {w cap : ℝ} {lighter : List ℝ}
    (h : Fits limit (capped + 1) heavy lighter cap)
    (hle : candidate limit (capped + 1) lighter ≤ candidate limit capped (w :: lighter))
    (hfailed : candidate limit capped (w :: lighter) ≤ w) :
    Fits limit capped (heavy + 1) (w :: lighter) cap := by
  have hcap : cap ≤ candidate limit capped (w :: lighter) := h.le_candidate.trans hle
  refine ⟨?_, fun v hv => ?_, h.lt_of_mem_drop, hcap⟩
  · rw [List.drop_succ_cons, ← h.balance]
    rw [show capped + 1 + heavy = capped + (heavy + 1) by omega]
  · rw [List.take_succ_cons] at hv
    rcases List.mem_cons.mp hv with rfl | hv
    · exact hcap.trans hfailed
    · exact h.le_of_mem_take v hv

/-- The search ends with a cap before the plays run out, as `capped + plays` paths at their limit
would have at least everything. -/
theorem findCap_fits {limit : ℝ} (hlimit : 0 < limit) {plays capped : ℕ} {weights : List ℝ}
    (hsorted : weights.Pairwise (· ≥ ·)) (hpos : ∀ w ∈ weights, 0 < w)
    (hplays : plays < weights.length) (hrest : 0 < 1 - capped * limit)
    (hfull : 1 ≤ (capped + plays : ℕ) * limit) :
    ∃ heavy < plays, ∃ cap, findCap limit plays capped weights = some cap ∧
      Fits limit capped heavy weights cap := by
  -- By induction on the plays; a test that fails keeps the denominator positive for the next one.
  induction plays generalizing capped weights with
  | zero =>
    rw [Nat.add_zero] at hfull
    linarith
  | succ plays ih =>
    cases weights with
    | nil => simp at hplays
    | cons w lighter =>
      obtain ⟨hw, hlighter⟩ := List.pairwise_cons.mp hsorted
      rw [findCap_cons hrest]
      split
      · next hhit => exact ⟨0, Nat.zero_lt_succ _, _, rfl, fits_candidate hrest hw hhit⟩
      · next hfailed =>
        rw [not_lt] at hfailed
        have hlen : plays < lighter.length := Nat.lt_of_succ_lt_succ hplays
        have hpos' : ∀ v ∈ lighter, 0 < v := fun v hv => hpos v (List.mem_cons_of_mem _ hv)
        have hsum : 0 < lighter.sum :=
          List.sum_pos _ hpos' (List.ne_nil_of_length_pos (Nat.zero_lt_of_lt hlen))
        obtain ⟨hrest', hle⟩ := candidate_of_failed hlimit hrest (hpos w List.mem_cons_self) hsum
          hfailed
        obtain ⟨heavy, hheavy, cap, hfind, hfits⟩ := ih hlighter hpos' hlen hrest'
          (by rw [show capped + 1 + plays = capped + (plays + 1) by omega]; exact hfull)
        exact ⟨heavy + 1, Nat.succ_lt_succ hheavy, cap, hfind, hfits.cons hle hfailed⟩

section Fits

variable {limit cap : ℝ} {heavy : ℕ} {weights : List ℝ}

theorem Fits.sum_min (h : Fits limit 0 heavy weights cap) (hlen : heavy ≤ weights.length) :
    (weights.map fun w => min w cap).sum = heavy * cap + (weights.drop heavy).sum := by
  have htake : (weights.take heavy).map (fun w => min w cap) = List.replicate heavy cap := by
    apply List.eq_replicate_iff.mpr
    refine ⟨by rw [List.length_map, List.length_take, min_eq_left hlen], fun v hv => ?_⟩
    obtain ⟨w, hw, rfl⟩ := List.mem_map.mp hv
    exact min_eq_right (h.le_of_mem_take w hw)
  have hdrop : (weights.drop heavy).map (fun w => min w cap) = weights.drop heavy := by
    conv_rhs => rw [← List.map_id (weights.drop heavy)]
    apply List.map_congr_left
    intro w hw
    exact min_eq_left (h.lt_of_mem_drop w hw).le
  conv_lhs => rw [← List.take_append_drop heavy weights]
  rw [List.map_append, List.sum_append, htake, hdrop, List.sum_replicate, nsmul_eq_mul]

theorem Fits.countP (h : Fits limit 0 heavy weights cap) (hlen : heavy ≤ weights.length) :
    weights.countP (fun w => Decidable.decide (cap ≤ w)) = heavy := by
  have htake : (weights.take heavy).countP (fun w => Decidable.decide (cap ≤ w)) = heavy := by
    rw [List.countP_eq_length.mpr fun w hw => decide_eq_true (h.le_of_mem_take w hw),
      List.length_take, min_eq_left hlen]
  have hdrop : (weights.drop heavy).countP (fun w => Decidable.decide (cap ≤ w)) = 0 := by
    apply List.countP_eq_zero.mpr
    intro w hw
    rw [decide_eq_true_iff, not_le]
    exact h.lt_of_mem_drop w hw
  conv_lhs => rw [← List.take_append_drop heavy weights]
  rw [List.countP_append, htake, hdrop, Nat.add_zero]

end Fits

/-- A cap for weights of which each may have the share `limit`, when `m` of them are selected. -/
structure IsCap (limit : ℝ) (m : ℕ) (weights : List ℝ) (cap : ℝ) : Prop where
  pos : 0 < cap
  fixed : cap = limit * (weights.map fun w => min w cap).sum
  one_le_countP : 1 ≤ weights.countP fun w => Decidable.decide (cap ≤ w)
  countP_lt : weights.countP (fun w => Decidable.decide (cap ≤ w)) < m

theorem IsCap.exists_le {limit cap : ℝ} {m : ℕ} {weights : List ℝ}
    (h : IsCap limit m weights cap) : ∃ w ∈ weights, cap ≤ w := by
  obtain ⟨w, hw, hle⟩ := List.countP_pos_iff.mp h.one_le_countP
  exact ⟨w, hw, of_decide_eq_true hle⟩

/-- The cap that the search finds, when the heaviest weight is over its limit. -/
theorem Fits.isCap {limit cap : ℝ} {heavy m : ℕ} {weights : List ℝ}
    (h : Fits limit 0 heavy weights cap) (hheavy : heavy < m) (hlen : m ≤ weights.length)
    (hpos : ∀ w ∈ weights, 0 < w) (hover : ∃ w ∈ weights, limit * weights.sum ≤ w) :
    IsCap limit m weights cap := by
  have hle : heavy ≤ weights.length := hheavy.le.trans hlen
  have hbalance : cap * (1 - heavy * limit) = limit * (weights.drop heavy).sum := by
    rw [← h.balance, Nat.zero_add]
  refine ⟨?_, ?_, ?_, ?_⟩
  · -- A weight below the cap is left over, as there are more weights than plays.
    have hrest : 0 < (weights.drop heavy).length := by
      rw [List.length_drop]
      omega
    obtain ⟨w, hw⟩ := List.exists_mem_of_length_pos hrest
    exact (hpos w (List.mem_of_mem_drop hw)).trans (h.lt_of_mem_drop w hw)
  · rw [h.sum_min hle]
    linear_combination hbalance
  · rw [h.countP hle]
    -- Were no weight heavy, the first candidate would exceed the weight that is over the limit.
    by_contra hzero
    obtain rfl : heavy = 0 := by omega
    obtain ⟨w, hw, hover⟩ := hover
    have hcap := h.le_candidate
    have hlt := h.lt_of_mem_drop w hw
    rw [candidate, Nat.cast_zero, zero_mul, sub_zero, div_one] at hcap
    linarith
  · rw [h.countP hle]
    exact hheavy

theorem IsCap.of_perm {limit cap : ℝ} {m : ℕ} {weights others : List ℝ}
    (hperm : weights.Perm others) (h : IsCap limit m weights cap) : IsCap limit m others cap := by
  refine ⟨h.pos, ?_, ?_, ?_⟩
  · rw [← (hperm.map fun w => min w cap).sum_eq]
    exact h.fixed
  · rw [← hperm.countP_eq]
    exact h.one_le_countP
  · rw [← hperm.countP_eq]
    exact h.countP_lt

/-- The outcomes of the search: no cap when all weights are below their limit, and else a cap. -/
inductive Capping (limit : ℝ) (m : ℕ) (weights : List ℝ) : Option ℝ → Prop
  | free (h : ∀ w ∈ weights, w < limit * weights.sum) : Capping limit m weights none
  | capped {cap : ℝ} (hover : ∃ w ∈ weights, limit * weights.sum ≤ w)
      (h : IsCap limit m weights cap) : Capping limit m weights (some cap)

theorem descending_perm (weights : List ℝ) : (descending weights).Perm weights :=
  List.mergeSort_perm _ _

theorem pairwise_descending (weights : List ℝ) : (descending weights).Pairwise (· ≥ ·) := by
  have h : (descending weights).Pairwise fun a b => Scalar.totalLe b a = true :=
    List.pairwise_mergeSort (fun a b c hab hbc => Scalar.totalLe_trans_real c b a hbc hab)
      (fun a b => Scalar.totalLe_total_real b a) weights
  exact h.imp fun hab => Scalar.totalLe_real.mp hab

section ShareLimit

variable {gamma : ℝ} {paths m : ℕ}

theorem shareLimit_real (gamma : ℝ) (paths m : ℕ) :
    shareLimit gamma paths m = (1 / (m : ℝ) - gamma / paths) / (1 - gamma) := by
  unfold shareLimit
  rw [Scalar.one_real]

/-- With the limit as its share of the weights a path has the probability one. -/
theorem probability_at_shareLimit (paths : ℕ) (h1 : gamma < 1) (hm : 1 ≤ m) :
    (m : ℝ) * ((1 - gamma) * shareLimit gamma paths m + gamma / paths) = 1 := by
  have hm' : (m : ℝ) ≠ 0 := by exact_mod_cast Nat.one_le_iff_ne_zero.mp hm
  have hgap : 1 - gamma ≠ 0 := (sub_pos.mpr h1).ne'
  rw [shareLimit_real, mul_div_cancel₀ _ hgap, sub_add_cancel, mul_one_div_cancel hm']

/-- The shares of `m` paths at the limit would be more than all of the weights. -/
theorem one_lt_mul_shareLimit (h0 : 0 < gamma) (h1 : gamma < 1) (hm : 1 ≤ m) (hlt : m < paths) :
    1 < m * shareLimit gamma paths m := by
  have hgap : 0 < 1 - gamma := sub_pos.mpr h1
  have hm' : (0 : ℝ) < m := by exact_mod_cast hm
  have hlt' : (m : ℝ) < paths := by exact_mod_cast hlt
  have hshare : m * (gamma / paths) < gamma := by
    rw [mul_div_assoc', div_lt_iff₀ (hm'.trans hlt'), mul_comm]
    exact mul_lt_mul_of_pos_left hlt' h0
  have hprob := probability_at_shareLimit paths h1 hm
  by_contra hle
  have hmul := mul_le_mul_of_nonneg_left (not_lt.mp hle) hgap.le
  linarith

theorem shareLimit_pos (h0 : 0 < gamma) (h1 : gamma < 1) (hm : 1 ≤ m) (hlt : m < paths) :
    0 < shareLimit gamma paths m :=
  pos_of_mul_pos_right (one_pos.trans (one_lt_mul_shareLimit h0 h1 hm hlt)) (Nat.cast_nonneg m)

end ShareLimit

theorem capFor_capping {gamma : ℝ} {m : ℕ} {weights : List ℝ} (h0 : 0 < gamma) (h1 : gamma < 1)
    (hm : 1 ≤ m) (hlt : m < weights.length) (hpos : ∀ w ∈ weights, 0 < w) :
    ∃ cap, capFor gamma m weights = .ok cap ∧
      Capping (shareLimit gamma weights.length m) m weights cap := by
  have hlimit := shareLimit_pos h0 h1 hm hlt
  have hfull := one_lt_mul_shareLimit h0 h1 hm hlt
  have hperm := descending_perm weights
  have hsorted := pairwise_descending weights
  have hlen := hperm.length_eq
  have hsum := hperm.sum_eq
  unfold capFor
  cases hd : descending weights with
  | nil =>
    rw [hd, List.length_nil] at hlen
    omega
  | cons heaviest lighter =>
    rw [hd] at hperm hsorted hlen hsum
    have hheaviest : ∀ w ∈ weights, w ≤ heaviest := by
      intro w hw
      rcases List.mem_cons.mp (hperm.mem_iff.mpr hw) with rfl | hw'
      · exact le_rfl
      · exact (List.pairwise_cons.mp hsorted).1 w hw'
    have hmem : heaviest ∈ weights := hperm.mem_iff.mp List.mem_cons_self
    simp only [Scalar.sum_real]
    split
    · next hover =>
      have hpos' : ∀ w ∈ heaviest :: lighter, 0 < w := fun w hw => hpos w (hperm.mem_iff.mp hw)
      have hrest : 0 < 1 - ((0 : ℕ) : ℝ) * shareLimit gamma weights.length m := by
        rw [Nat.cast_zero, zero_mul, sub_zero]
        exact one_pos
      obtain ⟨heavy, hheavy, cap, hfind, hfits⟩ := findCap_fits hlimit hsorted hpos' (hlen ▸ hlt)
        hrest (by rw [Nat.zero_add]; exact hfull.le)
      have hcap := hfits.isCap hheavy (hlen ▸ hlt.le) hpos'
        ⟨heaviest, List.mem_cons_self, hsum ▸ hover⟩
      rw [hfind]
      exact ⟨some cap, rfl, Capping.capped ⟨heaviest, hmem, hover⟩ (hcap.of_perm hperm)⟩
    · next hunder =>
      refine ⟨none, rfl, Capping.free fun w hw => ?_⟩
      exact (hheaviest w hw).trans_lt (not_le.mp hunder)

end PathSelection.Exp3
