import Mathlib.Tactic.FieldSimp
import Mathlib.Tactic.NormNum
import PathSelection.Proofs.Constrained.Learning
import PathSelection.Proofs.Extended

namespace PathSelection

namespace Extended

/-- The mean of some values, and one half of no values. -/
noncomputable def mean : List Extended → Extended
  | [] => 0.5
  | x :: xs => Scalar.sum (x :: xs) / ((x :: xs).length : Extended)

theorem mean_nil : mean [] = finite (1 / 2) := by
  change finite (OfScientific.ofScientific 5 true 1) = finite (1 / 2)
  norm_num

theorem mean_of_ne_nil {values : List Extended} (h : values ≠ []) :
    mean values = Scalar.sum values / (values.length : Extended) := by
  cases values with
  | nil => exact absurd rfl h
  | cons x xs => rfl

theorem sum_concat (values : List Extended) (x : Extended) :
    Scalar.sum (values ++ [x]) = Scalar.sum values + x :=
  List.foldl_concat _ _ _ _

theorem sum_finite (xs : List ℝ) : Scalar.sum (xs.map finite) = finite xs.sum := by
  induction xs using List.reverseRecOn with
  | nil => exact (congrArg neg zero_finite).trans (congrArg finite neg_zero)
  | append_singleton xs x ih =>
    rw [List.map_append, List.map_singleton, sum_concat, ih, add_finite, List.sum_append,
      List.sum_singleton]

/-- The mean of finite values is that of the reals. -/
theorem mean_finite {xs : List ℝ} (h : xs ≠ []) :
    mean (xs.map finite) = finite (xs.sum / xs.length) := by
  have hlength : (xs.length : ℝ) ≠ 0 := Nat.cast_ne_zero.mpr (List.length_pos_iff.mpr h).ne'
  rw [mean_of_ne_nil (List.map_eq_nil_iff.not.mpr h), sum_finite, List.length_map]
  exact div_finite hlength

/-- Whatever is divided by a positive number comes back when it is multiplied by it, also if it is
infinite or no number. -/
theorem finite_mul_div_cancel {k : ℝ} (hk : 0 < k) (a : Extended) :
    finite k * (a / finite k) = a := by
  cases a with
  | finite x => rw [div_finite hk.ne', mul_finite, mul_div_cancel₀ x hk.ne']
  | infinite s =>
    have hsign : decide (k < 0) = false := decide_eq_false hk.le.not_gt
    change (if k = 0 then undefined else infinite ((s != decide (k < 0)) != decide (k < 0))) =
      infinite s
    rw [if_neg hk.ne', hsign]
    cases s <;> rfl
  | undefined => rfl

/-- The rule of the running averages takes a mean to the mean with one more value; the mean of no
values does not count. -/
theorem mean_concat (values : List Extended) (x : Extended) :
    ((values.length : Extended) * mean values + x) / ((values.length : Extended) + 1) =
      mean (values ++ [x]) := by
  have hsum : (values.length : Extended) * mean values = Scalar.sum values := by
    by_cases hnil : values = []
    · -- The one half is multiplied by the count zero.
      rw [hnil, mean_nil]
      change finite ((0 : ℕ) * (1 / 2)) = finite (-(0 : ℕ))
      norm_num
    · rw [mean_of_ne_nil hnil]
      exact finite_mul_div_cancel (Nat.cast_pos.mpr (List.length_pos_iff.mpr hnil)) _
  have hlength : (values.length : Extended) + 1 = ((values ++ [x]).length : Extended) := by
    rw [List.length_append, List.length_singleton]
    change finite (values.length + (1 : ℕ)) = finite ((values.length + 1 : ℕ) : ℝ)
    rw [Nat.cast_add]
  have hne : values ++ [x] ≠ [] := List.append_ne_nil_of_right_ne_nil _ (List.cons_ne_nil _ _)
  rw [mean_of_ne_nil hne, sum_concat, hsum, hlength]

end Extended

namespace Constrained

open Extended

section Averages

variable {ρ α : Type} [Scalar α] [RandomSource ρ α]

/-- Only updates in averaged mode change the averages of a path. -/
theorem averages_revises {resource : Resource} {memory : α} {mode : RoundMode}
    {metrics : List (Metric α)} {before after : Belief α} (hmode : mode ≠ .averaged)
    (h : Revises resource memory mode metrics before after) :
    Belief.averages after = Belief.averages before := by
  cases h with
  | vanilla trials => exact foldl_observe_averages trials before
  | damped trials => exact foldl_observe_averages trials before
  | forgets => rfl
  | averaged => exact absurd rfl hmode

theorem averages_apply (p : Constrained ρ α) {call : Call α}
    (hcall : ∀ selected measurements, call ≠ .update .averaged selected measurements) :
    (call.apply p).2.beliefs.map Belief.averages = p.beliefs.map Belief.averages := by
  rcases apply_cases p call with ⟨-, hsame⟩ | ⟨lesson, hlessons, hrevises⟩
  · rw [hsame]
  · have hmode : lesson.mode ≠ .averaged := by
      obtain ⟨selected, measurements, hupdate⟩ := eq_update_of_lessons hlessons
      intro haveraged
      exact hcall selected measurements (haveraged ▸ hupdate)
    apply List.ext_getElem?
    intro path
    rw [List.getElem?_map, List.getElem?_map]
    cases hafter : (call.apply p).2.beliefs[path]? with
    | none =>
      have hnone : p.beliefs[path]? = none := by
        rw [List.getElem?_eq_none_iff] at hafter ⊢
        exact (length_apply p call).ge.trans hafter
      rw [hnone]
    | some after =>
      obtain ⟨before, hbefore, hrevised⟩ := hrevises path after hafter
      rw [hbefore, Option.map_some, Option.map_some, averages_revises hmode hrevised]

end Averages

section Runs

variable {resource : Resource} {values : List (Metric Extended)} {b : Belief Extended}

/-- The belief in a path has the means of some measurements as its averages. -/
structure Averages (resource : Resource) (values : List (Metric Extended)) (b : Belief Extended) :
    Prop where
  averaged_eq : b.averaged = values.length
  bandwidth_eq : b.averageBandwidth = mean (values.map Metric.bandwidth)
  cost_eq : b.averageCost = mean (values.map resource.cost)

theorem Averages.congr {b' : Belief Extended} (h : Averages resource values b)
    (hsame : Belief.averages b' = Belief.averages b) : Averages resource values b' := by
  obtain ⟨hbandwidth, hcost, haveraged⟩ : b'.averageBandwidth = b.averageBandwidth ∧
      b'.averageCost = b.averageCost ∧ b'.averaged = b.averaged := by
    unfold Belief.averages at hsame
    simpa using hsame
  exact ⟨haveraged.trans h.averaged_eq, hbandwidth.trans h.bandwidth_eq, hcost.trans h.cost_eq⟩

theorem Averages.average (h : Averages resource values b) (metric : Metric Extended) :
    Averages resource (values ++ [metric]) (Belief.average resource metric b) := by
  obtain ⟨haveraged, hbandwidth, hcost⟩ := h
  have hmean : ∀ value : Metric Extended → Extended,
      ((b.averaged : Extended) * mean (values.map value) + value metric) /
          ((b.averaged : Extended) + 1) = mean ((values ++ [metric]).map value) := by
    intro value
    rw [haveraged, ← List.length_map value, mean_concat, List.map_append, List.map_singleton]
  unfold Belief.average
  refine ⟨?_, ?_, ?_⟩
  · rw [List.length_append, List.length_singleton, haveraged]
  · rw [hbandwidth]
    exact hmean Metric.bandwidth
  · rw [hcost]
    exact hmean resource.cost

theorem Averages.foldl (metrics : List (Metric Extended)) (h : Averages resource values b) :
    Averages resource (values ++ metrics)
      (metrics.foldl (fun b metric => Belief.average resource metric b) b) := by
  induction metrics generalizing values b with
  | nil =>
    rw [List.append_nil]
    exact h
  | cons metric metrics ih =>
    rw [List.append_cons]
    exact ih (h.average metric)

variable {ρ : Type} [RandomSource ρ Extended] {engine : Lp.Engine Extended} {paths : ℕ}
  {threshold damping : Extended} {rng : ρ} {p : Constrained ρ Extended}

theorem averages_callAll
    (hnew : Constrained.new engine resource paths threshold damping rng = .ok p)
    (calls : List (Call Extended)) {path : ℕ}
    (hb : (callAll calls p).2.beliefs[path]? = some b) :
    Averages resource (measured [.averaged] (taught calls p) path) b := by
  refine belief_induction (P := fun history b =>
    Averages resource (measured [.averaged] history path) b) ⟨rfl, rfl, rfl⟩ ?_ hnew calls hb
  intro history lesson before after hbefore h
  rw [measured_append]
  generalize lesson.mode = mode at h ⊢
  generalize about lesson.entries path = metrics at h ⊢
  by_cases hmode : mode = .averaged
  · subst hmode
    cases h
    rw [if_pos (List.mem_singleton.mpr rfl)]
    exact hbefore.foldl metrics
  · rw [if_neg (List.mem_singleton.not.mpr hmode), List.append_nil]
    exact hbefore.congr (averages_revises hmode h)

/-- After any calls the running averages of a path are the means of the bandwidths, and of the
signals that are bounded or made small, in all measurements on it that averaged updates have brought
and that were accepted. A call that is not an averaged update leaves all averages as they are. -/
theorem averages_are_means
    (hnew : Constrained.new engine resource paths threshold damping rng = .ok p)
    (calls : List (Call Extended)) :
    ((callAll calls p).2.beliefs.length = paths ∧
      ∀ path b, (callAll calls p).2.beliefs[path]? = some b →
        let accepted := measured [.averaged] (taught calls p) path
        b.averageBandwidth = mean (accepted.map Metric.bandwidth) ∧
        b.averageCost = mean (accepted.map fun metric =>
          if resource = .loss then metric.loss else metric.latency)) ∧
      ∀ call : Call Extended,
        (∀ selected measurements, call ≠ .update .averaged selected measurements) →
        (callAll (calls ++ [call]) p).2.beliefs.map Belief.averages =
          (callAll calls p).2.beliefs.map Belief.averages := by
  have hcost : resource.cost = fun metric : Metric Extended =>
      if resource = .loss then metric.loss else metric.latency := by
    cases resource <;> rfl
  refine ⟨⟨(length_callAll calls p).trans (steady_new hnew).length_beliefs, ?_⟩, ?_⟩
  · intro path b hb
    have haverages := averages_callAll hnew calls hb
    exact ⟨haverages.bandwidth_eq, hcost ▸ haverages.cost_eq⟩
  · intro call hcall
    rw [callAll_concat]
    exact averages_apply _ hcall

/-- Two values of one path in one update and a third one later, between calls of all other kinds and
an update that is refused. The other path keeps the averages that it started with. -/
theorem averages_are_means_two :
    let calls : List (Call Extended) :=
      [.update .averaged [1, 1]
          [⟨0, finite (1 / 5), finite (2 / 5)⟩, ⟨0, finite (3 / 5), finite 0⟩],
        .decide .averaged 1, .update .vanilla [1] [⟨0, undefined, 0⟩],
        .update .averaged [0, 2] [⟨0, 0, 0⟩, ⟨0, 0, 0⟩], .update .damped [0] [⟨0, 1, 1⟩],
        .update .averaged [1] [⟨0, finite 1, finite (1 / 5)⟩], .decide .vanilla 2]
    ∃ p, Constrained.new engineless .loss 2 0 (finite (1 / 4)) zeros = .ok p ∧
      (∃ b, (callAll calls p).2.beliefs[1]? = some b ∧
        b.averageBandwidth = finite (3 / 5) ∧ b.averageCost = finite (1 / 5)) ∧
      ∃ b, (callAll calls p).2.beliefs[0]? = some b ∧
        b.averageBandwidth = finite (1 / 2) ∧ b.averageCost = finite (1 / 2) := by
  intro calls
  have hdamping : 0 ≤ finite (1 / 4) ∧ finite (1 / 4) < 1 := unit_finite.mpr (by norm_num)
  obtain ⟨p, hnew, htaught, hbelief⟩ := exists_new rfl hdamping .loss 2 zeros
  obtain ⟨⟨-, hall⟩, -⟩ := averages_are_means hnew calls
  rw [htaught] at hall
  refine ⟨p, hnew, ?_, ?_⟩
  · obtain ⟨b, hb⟩ := hbelief calls 1 (by decide)
    obtain ⟨hbandwidth, hcost⟩ := hall 1 b hb
    refine ⟨b, hb, hbandwidth.trans ?_, hcost.trans ?_⟩
    · refine (@mean_finite [1 / 5, 3 / 5, 1] (by simp)).trans ?_
      norm_num
    · refine (@mean_finite [2 / 5, 0, 1 / 5] (by simp)).trans ?_
      norm_num
  · obtain ⟨b, hb⟩ := hbelief calls 0 (by decide)
    obtain ⟨hbandwidth, hcost⟩ := hall 0 b hb
    exact ⟨b, hb, hbandwidth.trans mean_nil, hcost.trans mean_nil⟩

end Runs

end Constrained

end PathSelection
