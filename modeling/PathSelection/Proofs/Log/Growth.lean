import PathSelection.Proofs.Log.Rewards
import PathSelection.Proofs.Reals

namespace PathSelection.RewardLog

variable {log : RewardLog ℝ} {policy : ℕ}

/-- A log in which no round of a policy has a negative regret. -/
def RegretNonneg (policy : ℕ) (log : RewardLog ℝ) : Prop :=
  ∀ round r, log.get? policy round = some r → 0 ≤ r.regret

theorem regretNonneg_new (policy policies rounds : ℕ) :
    RegretNonneg policy (RewardLog.new policies rounds) := by
  intro round r hr
  unfold get? new at hr
  split at hr
  · obtain ⟨-, -, rfl⟩ := Array.getElem?_eq_some_iff.mp hr
    rw [Array.getElem_replicate]
    exact Scalar.zero_real.ge
  · exact absurd hr (by simp)

theorem RegretNonneg.record (h : RegretNonneg policy log) (e : Event ℝ)
    (he : ∀ round reward, e = .rewarded policy round reward → 0 ≤ reward.regret) :
    RegretNonneg policy (Recorder.record e log) := by
  cases e with
  | rewarded policy' round' reward =>
    intro round r hr
    change (log.recordReward policy' round' reward).get? policy round = some r at hr
    rw [get?_recordReward] at hr
    split at hr
    · next hsame =>
      obtain ⟨rfl, -⟩ := hsame
      obtain ⟨before, hbefore, rfl⟩ := Option.map_eq_some_iff.mp hr
      exact add_nonneg (h round before hbefore) (he round' reward rfl)
    · exact h round r hr
  | _ => exact h

theorem RegretNonneg.recordAll (h : RegretNonneg policy log) {events : List (Event ℝ)}
    (hevents : ∀ round reward, .rewarded policy round reward ∈ events → 0 ≤ reward.regret) :
    RegretNonneg policy (Recorder.recordAll events log) := by
  induction events generalizing log with
  | nil => exact h
  | cons e events ih =>
    apply ih (h.record e _)
    · exact fun round reward hmem => hevents round reward (List.mem_cons_of_mem e hmem)
    · rintro round reward rfl
      exact hevents round reward List.mem_cons_self

theorem RegretNonneg.monotone_sumOf (h : RegretNonneg policy log) :
    Monotone fun count => (log.sumOf policy count).regret := by
  apply monotone_nat_of_le_succ
  intro count
  rw [sumOf_succ]
  cases hcell : log.get? policy count with
  | none => exact le_rfl
  | some r => exact le_add_of_nonneg_right (h count r hcell)

/-- The averaged sum of the regrets never decreases. -/
theorem RegretNonneg.cumulative_le (h : RegretNonneg policy log) (round : ℕ) :
    (log.cumulative policy round).regret ≤ (log.cumulative policy (round + 1)).regret := by
  have hlast : Nat.min round (log.rounds - 1) + 1 ≤ Nat.min (round + 1) (log.rounds - 1) + 1 :=
    Nat.succ_le_succ (min_le_min_right (log.rounds - 1) (Nat.le_succ round))
  exact div_le_div_of_nonneg_right (h.monotone_sumOf hlast) (Nat.cast_nonneg _)

end PathSelection.RewardLog
