import Mathlib.Data.List.GetD
import Mathlib.Tactic.FieldSimp
import PathSelection.Proofs.Exp3.Cap
import PathSelection.Proofs.Exp3.Reachable

namespace PathSelection.Exp3

/-- The weights times a common factor. -/
noncomputable def rescale (factor : ℝ) (weights : List ℝ) : List ℝ := weights.map (factor * ·)

section Search

variable {factor : ℝ}

@[simp] theorem length_rescale (weights : List ℝ) :
    (rescale factor weights).length = weights.length := List.length_map _

theorem sum_rescale (weights : List ℝ) : (rescale factor weights).sum = factor * weights.sum := by
  unfold rescale
  rw [List.sum_map_mul_left, List.map_id']

theorem getD_rescale (weights : List ℝ) (i : ℕ) :
    (rescale factor weights).getD i 0 = factor * weights.getD i 0 := by
  unfold rescale
  rw [← mul_zero factor, List.getD_map, mul_zero]

theorem descending_rescale (hfactor : 0 < factor) (weights : List ℝ) :
    descending (rescale factor weights) = rescale factor (descending weights) := by
  unfold descending rescale
  symm
  apply List.map_mergeSort
  intro w _ v _
  exact decide_eq_decide.mpr (mul_le_mul_iff_right₀ hfactor).symm

theorem candidate_rescale (limit : ℝ) (capped : ℕ) (weights : List ℝ) :
    candidate limit capped (rescale factor weights) = factor * candidate limit capped weights := by
  unfold candidate
  rw [sum_rescale]
  ring

theorem findCap_of_rest_nonpos {limit : ℝ} {capped : ℕ} (hrest : 1 - capped * limit ≤ 0)
    (plays : ℕ) (weights : List ℝ) : findCap limit plays capped weights = none := by
  cases plays with
  | zero => rfl
  | succ plays =>
    cases weights with
    | nil => rfl
    | cons w lighter =>
      rw [findCap]
      simp only [Scalar.zero_real, Scalar.one_real]
      exact if_pos hrest

theorem findCap_rescale (hfactor : 0 < factor) (limit : ℝ) (plays capped : ℕ)
    (weights : List ℝ) :
    findCap limit plays capped (rescale factor weights) =
      (findCap limit plays capped weights).map (factor * ·) := by
  -- By induction on the plays: a test compares a weight with a candidate, and both scale.
  induction plays generalizing capped weights with
  | zero => rfl
  | succ plays ih =>
    rcases le_or_gt (1 - capped * limit) 0 with hrest | hrest
    · rw [findCap_of_rest_nonpos hrest, findCap_of_rest_nonpos hrest]
      rfl
    cases weights with
    | nil => rfl
    | cons w lighter =>
      have hcons : rescale factor (w :: lighter) = factor * w :: rescale factor lighter := rfl
      have hcandidate := @candidate_rescale factor limit capped (w :: lighter)
      have htest : factor * w < factor * candidate limit capped (w :: lighter) ↔
          w < candidate limit capped (w :: lighter) := mul_lt_mul_iff_right₀ hfactor
      rw [findCap_cons hrest, hcons, findCap_cons hrest, ← hcons, hcandidate]
      by_cases h : w < candidate limit capped (w :: lighter)
      · rw [if_pos h, if_pos (htest.mpr h)]
        rfl
      · rw [if_neg h, if_neg (mt htest.mp h)]
        exact ih (capped + 1) lighter

end Search

section Decide

variable {factor gamma : ℝ} {m : ℕ}

theorem capFor_rescale (hfactor : 0 < factor) (gamma : ℝ) (m : ℕ) (weights : List ℝ) :
    capFor gamma m (rescale factor weights) =
      (capFor gamma m weights).map (Option.map (factor * ·)) := by
  unfold capFor
  simp only [length_rescale, descending_rescale hfactor, Scalar.sum_real, sum_rescale]
  cases hsorted : descending weights with
  | nil => rfl
  | cons heaviest lighter =>
    have hcons : rescale factor (heaviest :: lighter) =
        factor * heaviest :: rescale factor lighter := rfl
    have hover : shareLimit gamma weights.length m * (factor * weights.sum) ≤ factor * heaviest ↔
        shareLimit gamma weights.length m * weights.sum ≤ heaviest := by
      rw [mul_left_comm]
      exact mul_le_mul_iff_right₀ hfactor
    have hfind := findCap_rescale hfactor (shareLimit gamma weights.length m) m 0
      (heaviest :: lighter)
    rw [hcons] at hfind ⊢
    simp only [hover, hfind]
    split
    · cases findCap (shareLimit gamma weights.length m) m 0 (heaviest :: lighter) with
      | none => rfl
      | some cap => rfl
    · rfl

theorem cappedWeights_rescale (hfactor : 0 < factor) (cap : Option ℝ) (weights : List ℝ) :
    cappedWeights (cap.map (factor * ·)) (rescale factor weights) =
      rescale factor (cappedWeights cap weights) := by
  cases cap with
  | none => rfl
  | some cap =>
    unfold cappedWeights rescale
    simp only [Option.map_some, List.map_map]
    apply List.map_congr_left
    intro w _
    simp only [Function.comp_apply, Scalar.min_real]
    exact (mul_min_of_nonneg w cap hfactor.le).symm

theorem mixed_rescale (hfactor : 0 < factor) (gamma : ℝ) (m : ℕ) (weights : List ℝ) :
    mixed gamma m (rescale factor weights) = mixed gamma m weights := by
  unfold mixed
  simp only [Scalar.sum_real, sum_rescale, length_rescale]
  unfold rescale
  rw [List.map_map]
  apply List.map_congr_left
  intro w _
  have hshare : (1 - gamma) * (factor * w) / (factor * weights.sum) =
      (1 - gamma) * w / weights.sum := by
    rw [mul_left_comm, mul_div_mul_left _ _ hfactor.ne']
  simp only [Function.comp_apply, Scalar.one_real, hshare]

end Decide

section SameUpTo

variable {ρ : Type} {factor : ℝ} {p q : Exp3 ρ ℝ}

/-- Two states that only differ by a factor of the weights, and perhaps in their caps. -/
structure SameUpTo (factor : ℝ) (p q : Exp3 ρ ℝ) : Prop where
  gamma_eq : q.gamma = p.gamma
  weights_eq : q.weights = rescale factor p.weights
  probabilities_eq : q.probabilities = p.probabilities
  rng_eq : q.rng = p.rng

theorem SameUpTo.length_eq (h : SameUpTo factor p q) : q.weights.length = p.weights.length := by
  rw [h.weights_eq, length_rescale]

theorem SameUpTo.prepare (hfactor : 0 < factor) (h : SameUpTo factor p q) {m : ℕ}
    {p' : Exp3 ρ ℝ} (hp : p.prepare m = .ok p') :
    ∃ q', q.prepare m = .ok q' ∧ SameUpTo factor p' q' ∧ q'.cap = p'.cap.map (factor * ·) := by
  unfold Exp3.prepare at hp ⊢
  rw [h.gamma_eq, h.weights_eq, capFor_rescale hfactor]
  cases hcap : capFor p.gamma m p.weights with
  | error e =>
    rw [hcap] at hp
    exact absurd hp (by simp)
  | ok cap =>
    rw [hcap] at hp
    obtain rfl := Except.ok.inj hp
    refine ⟨_, rfl, ⟨rfl, rfl, ?_, h.rng_eq⟩, rfl⟩
    dsimp only
    rw [cappedWeights_rescale hfactor, mixed_rescale hfactor]

/-- Decisions on states that only differ by a factor select the same paths, and their caps differ
by that factor. -/
theorem SameUpTo.decide [DrawSource ρ ℝ] (hfactor : 0 < factor) (h : SameUpTo factor p q) {m : ℕ}
    (hprepare : 1 ≤ m → m < p.weights.length → ∃ p', p.prepare m = .ok p') :
    (p.decide m).1.map Selection.paths = (q.decide m).1.map Selection.paths ∧
      SameUpTo factor (p.decide m).2 (q.decide m).2 ∧
      (1 ≤ m → m ≤ p.weights.length →
        (q.decide m).2.cap = (p.decide m).2.cap.map (factor * ·)) := by
  have hp := decision_decide m p
  have hq := decision_decide m q
  generalize p.decide m = x at hp ⊢
  generalize q.decide m = y at hq ⊢
  have hlen := h.length_eq
  -- The number of plays decides the case of both, as they have equally many weights.
  cases hp with
  | tooMany hmany =>
    cases hq with
    | tooMany => exact ⟨by rw [hlen], h, fun _ hle => absurd hle (not_le.mpr hmany)⟩
    | all | none | uncapped | rounded => omega
  | all hall =>
    cases hq with
    | all => exact ⟨rfl, ⟨h.gamma_eq, h.weights_eq, rfl, h.rng_eq⟩, fun _ _ => rfl⟩
    | tooMany | none | uncapped | rounded => omega
  | none hzero hpaths =>
    cases hq with
    | none => exact ⟨rfl, h, fun hone _ => absurd hone (by omega)⟩
    | tooMany | all | uncapped | rounded => omega
  | uncapped hone hlt herror =>
    obtain ⟨p', hp'⟩ := hprepare hone hlt
    exact absurd (hp'.symm.trans herror) (by simp)
  | @rounded hone hlt p' hp' =>
    obtain ⟨q', hq', hsame, hcap⟩ := h.prepare hfactor hp'
    cases hq with
    | rounded _ _ hq'' =>
      obtain rfl := Except.ok.inj (hq'.symm.trans hq'')
      -- The same probabilities are rounded with the same randomness.
      simp only [hsame.probabilities_eq, hsame.rng_eq]
      refine ⟨?_, ⟨hsame.gamma_eq, hsame.weights_eq, rfl, rfl⟩, fun _ _ => hcap⟩
      cases (dependentRounding m p'.probabilities p'.rng).1 <;> rfl
    | uncapped _ _ herror => exact absurd (hq'.symm.trans herror) (by simp)
    | tooMany | all | none => omega

end SameUpTo

end PathSelection.Exp3
