import PathSelection.Proofs.Random.Uniform
import PathSelection.Proofs.Rounding.Cardinality

namespace PathSelection.Rounding

open MeasureTheory

section Mean

variable {entries : List ℝ} {i j : ℕ}

/-- The probability that a step on a pair moves mass up to its first entry. -/
noncomputable def pairChance (entries : List ℝ) (i j : ℕ) : ℝ :=
  upChance (entries.getD i 0) (entries.getD j 0)

theorem pairChance_pos (h : OpenPair entries i j) : 0 < pairChance entries i j := by
  have hup := upMass_pos h.fst_open h.snd_open
  have hdown := downMass_pos h.fst_open h.snd_open
  unfold pairChance upChance
  positivity

theorem pairChance_le_one (h : OpenPair entries i j) : pairChance entries i j ≤ 1 := by
  have hup := upMass_pos h.fst_open h.snd_open
  have hdown := downMass_pos h.fst_open h.snd_open
  unfold pairChance upChance
  exact (div_le_one (by positivity)).mpr (by linarith)

/-- A draw of zero always moves mass up to the first entry. -/
theorem step_zero (h : OpenPair entries i j) :
    step i j 0 entries =
      transfer i j (upMass (entries.getD i 0) (entries.getD j 0)) entries := by
  rw [step_eq_transfer]
  exact if_pos (pairChance_pos h)

/-- A draw of one always moves mass down from the first entry. -/
theorem step_one (h : OpenPair entries i j) :
    step i j 1 entries =
      transfer i j (-downMass (entries.getD i 0) (entries.getD j 0)) entries := by
  rw [step_eq_transfer]
  exact if_neg (not_lt.mpr (pairChance_le_one h))

theorem step_eq_ite (h : OpenPair entries i j) (u : ℝ) :
    step i j u entries =
      if u < pairChance entries i j then step i j 0 entries else step i j 1 entries := by
  rw [step_zero h, step_one h, step_eq_transfer]
  rfl

/-- The mass that moves up and the mass that moves down balance in the mean. -/
theorem pairChance_mul_upMass (h : OpenPair entries i j) :
    pairChance entries i j * upMass (entries.getD i 0) (entries.getD j 0) =
      (1 - pairChance entries i j) * downMass (entries.getD i 0) (entries.getD j 0) := by
  have hup := upMass_pos h.fst_open h.snd_open
  have hdown := downMass_pos h.fst_open h.snd_open
  unfold pairChance upChance
  field_simp
  ring

/-- A step keeps the mean of each entry. -/
theorem mean_step (h : OpenPair entries i j) (k : ℕ) :
    pairChance entries i j * (step i j 0 entries).getD k 0 +
      (1 - pairChance entries i j) * (step i j 1 entries).getD k 0 = entries.getD k 0 := by
  have hbalance := pairChance_mul_upMass h
  rw [step_zero h, step_one h]
  by_cases hi : k = i
  · rw [hi, getD_transfer_fst h, getD_transfer_fst h]
    linarith
  by_cases hj : k = j
  · rw [hj, getD_transfer_snd h, getD_transfer_snd h]
    linarith
  rw [getD_transfer_of_ne _ hi hj, getD_transfer_of_ne _ hi hj]
  ring

end Mean

section Tape

variable {entries : List ℝ} {visits : List ℕ}

/-- The entries after up to `n` steps with the draws of a tape. -/
noncomputable def settleDraws (order : List ℕ) (n : ℕ) (visits : List ℕ) (entries : List ℝ)
    (ω : ℕ → ℝ) : List ℝ :=
  (settle DrawSource.uniform n visits entries (Tape.mk order ω)).1

/-- The first pass on a tape: nothing happens, or the first draw chooses between two outcomes and
the later draws decide the rest. -/
theorem settleDraws_succ_cases (order : List ℕ) (hv : Visits visits entries) (n : ℕ) :
    (∀ ω, settleDraws order (n + 1) visits entries ω = entries) ∨
    ∃ i j later, OpenPair entries i j ∧ Visits (i :: j :: later) entries ∧
      ∀ ω, settleDraws order (n + 1) visits entries ω =
        if ω 0 < pairChance entries i j then
          settleDraws order n (i :: j :: later) (step i j 0 entries) (laterDraws ω)
        else settleDraws order n (i :: j :: later) (step i j 1 entries) (laterDraws ω) := by
  rcases settle_succ_cases hv (DrawSource.uniform : Tape → ℝ × Tape) n with
    ⟨-, hend⟩ | ⟨i, j, later, hpair, hv', hnext⟩
  · refine Or.inl fun ω => ?_
    unfold settleDraws
    rw [hend]
  · refine Or.inr ⟨i, j, later, hpair, hv', fun ω => ?_⟩
    unfold settleDraws
    rw [hnext, step_eq_ite hpair]
    change (settle _ n _ (if ω 0 < _ then _ else _) (Tape.mk order (laterDraws ω))).1 = _
    split <;> rfl

theorem measurable_settleDraws (g : List ℝ → ℝ) (order : List ℕ) (hv : Visits visits entries)
    (n : ℕ) : Measurable fun ω => g (settleDraws order n visits entries ω) := by
  induction n generalizing visits entries with
  | zero => exact (measurable_const : Measurable fun _ : ℕ → ℝ => g entries)
  | succ n ih =>
    rcases settleDraws_succ_cases order hv n with hend | ⟨i, j, later, hpair, hv', hnext⟩
    · simp only [hend]
      exact measurable_const
    · simp only [hnext, apply_ite g]
      apply Measurable.ite (measurableSet_lt (measurable_pi_apply 0) measurable_const)
      · exact (ih (hv'.step hpair 0)).comp measurable_laterDraws
      · exact (ih (hv'.step hpair 1)).comp measurable_laterDraws

theorem inUnit_settleDraws (order : List ℕ) (hv : Visits visits entries) (hu : InUnit entries)
    (n : ℕ) (ω : ℕ → ℝ) : InUnit (settleDraws order n visits entries ω) :=
  inUnit_settle hv hu _ n _

theorem integrable_settleDraws (order : List ℕ) (hv : Visits visits entries)
    (hu : InUnit entries) (n k : ℕ) :
    Integrable (fun ω => (settleDraws order n visits entries ω).getD k 0) uniformDraws := by
  have hmeas := measurable_settleDraws (fun e => e.getD k 0) order hv n
  refine Integrable.of_bound hmeas.aestronglyMeasurable 1 (ae_of_all _ fun ω => ?_)
  have h := inUnit_settleDraws order hv hu n ω k
  rw [Real.norm_eq_abs, abs_le]
  exact ⟨by linarith, h.2⟩

/-- However many steps are made, the mean of an entry is what it was at the start. -/
theorem integral_settleDraws (order : List ℕ) (hv : Visits visits entries)
    (hu : InUnit entries) (n k : ℕ) :
    ∫ ω, (settleDraws order n visits entries ω).getD k 0 ∂uniformDraws = entries.getD k 0 := by
  induction n generalizing visits entries with
  | zero =>
    change ∫ _, entries.getD k 0 ∂uniformDraws = _
    rw [integral_const, probReal_univ, one_smul]
  | succ n ih =>
    rcases settleDraws_succ_cases order hv n with hend | ⟨i, j, later, hpair, hv', hnext⟩
    · simp only [hend]
      rw [integral_const, probReal_univ, one_smul]
    · have hup := hv'.step hpair 0
      have hdown := hv'.step hpair 1
      simp only [hnext, apply_ite (fun e : List ℝ => e.getD k 0)]
      rw [integral_choice (pairChance_pos hpair).le (pairChance_le_one hpair)
        (integrable_settleDraws order hup (inUnit_step hpair 0 hu) n k)
        (integrable_settleDraws order hdown (inUnit_step hpair 1 hu) n k),
        ih hup (inUnit_step hpair 0 hu), ih hdown (inUnit_step hpair 1 hu), mean_step hpair]

end Tape

namespace Finished

variable {shares final : List ℝ} {l : ℕ}

/-- Next to an undecided entry all others are decided. -/
theorem not_isOpen_of_ne (h : Finished shares final) {i k : ℕ}
    (hi : isOpen (final.getD i 0) = true) (hk : k ≠ i) : isOpen (final.getD k 0) = false := by
  by_contra hopen
  rw [Bool.not_eq_false] at hopen
  exact hk (Finset.card_le_one.mp h.card_open k (mem_openPositions.mpr hopen) i
    (mem_openPositions.mpr hi))

/-- When `l` indices are taken, the last undecided entry is as close to what it counts as as the
decided ones together are. -/
theorem abs_cut_sub_le (h : Finished shares final) (hsum : |shares.sum - l| ≤ 0.001)
    (hl : (taken final).length = l) {i : ℕ} (hi : i < shares.length) :
    |cut (final.getD i 0) - final.getD i 0| ≤ 0.001 * shares.length := by
  have hone : (1 : ℝ) ≤ shares.length := by exact_mod_cast Nat.one_le_of_lt hi
  cases hopen : isOpen (final.getD i 0) with
  | false =>
    have hlt := abs_cut_sub_lt (h.unit i).1 (h.unit i).2 hopen
    linarith
  | true =>
    -- The other entries account for the distance of this one, since all of them sum to about `l`.
    have hmem : i ∈ Finset.range final.length := by
      rw [h.length_eq, Finset.mem_range]
      exact hi
    have htotal := @taken_sub_sum final
    rw [hl, h.sum_eq, ← Finset.add_sum_erase _ _ hmem] at htotal
    have hothers : |∑ k ∈ (Finset.range final.length).erase i,
        (cut (final.getD k 0) - final.getD k 0)| ≤ 0.001 * ((shares.length : ℝ) - 1) := by
      calc
        _ ≤ ∑ k ∈ (Finset.range final.length).erase i,
            |cut (final.getD k 0) - final.getD k 0| := Finset.abs_sum_le_sum_abs _ _
        _ ≤ ∑ _k ∈ (Finset.range final.length).erase i, (0.001 : ℝ) := by
          apply Finset.sum_le_sum
          intro k hk
          have hclosed := h.not_isOpen_of_ne hopen (Finset.ne_of_mem_erase hk)
          exact (abs_cut_sub_lt (h.unit k).1 (h.unit k).2 hclosed).le
        _ = _ := by
          rw [Finset.sum_const, Finset.card_erase_of_mem hmem, Finset.card_range, h.length_eq,
            nsmul_eq_mul, Nat.cast_sub (Nat.one_le_of_lt hi), Nat.cast_one, mul_comm]
    rw [abs_le] at hsum hothers ⊢
    constructor <;> linarith

end Finished

end PathSelection.Rounding

namespace PathSelection

open MeasureTheory Rounding

/-- Rounding succeeds and takes the index `i`. -/
def Takes {ρ : Type} [DrawSource ρ ℝ] (l : ℕ) (shares : List ℝ) (rng : ρ) (i : ℕ) : Prop :=
  ∃ chosen, (dependentRounding l shares rng).1 = .ok chosen ∧ i ∈ chosen

theorem takes_iff {ρ : Type} [DrawSource ρ ℝ] {l : ℕ} {shares : List ℝ} {rng : ρ}
    (horder : (DrawSource.order shares.length rng).1.Perm (List.range shares.length))
    (hunit : ∀ p ∈ shares, 0 ≤ p ∧ p ≤ 1) (hsum : |shares.sum - l| ≤ 0.001)
    (hlen : shares.length ≤ 499) {i : ℕ} (hi : i < shares.length) :
    Takes l shares rng i ↔ 0.5 < (finalEntries shares rng).getD i 0 := by
  have hfin := finished_finalEntries horder hunit
  have hresult := dependentRounding_fst rng hsum
  rw [if_pos (hfin.length_taken_eq hsum hlen)] at hresult
  unfold Takes
  rw [hresult]
  constructor
  · rintro ⟨chosen, hchosen, hmem⟩
    rw [← Except.ok.inj hchosen] at hmem
    exact (mem_taken.mp hmem).2
  · intro hhalf
    refine ⟨_, rfl, mem_taken.mpr ⟨?_, hhalf⟩⟩
    rw [hfin.length_eq]
    exact hi

/-- The entry at `i` that rounding ends with on a tape. -/
noncomputable def lastEntry (shares : List ℝ) (order : List ℕ) (i : ℕ) (ω : ℕ → ℝ) : ℝ :=
  (finalEntries shares (Tape.mk order ω)).getD i 0

/-- With independent uniform draws and any visiting order, an index is taken with a probability that
differs from its share by at most one thousandth for each share. The mean of each entry stays equal
to its share; what is left of the difference comes from entries that are decided off an end of the
unit interval by less than one thousandth, and from the cut of the last undecided entry. -/
theorem dependentRounding_marginal (l : ℕ) (shares : List ℝ) (order : List ℕ)
    (horder : order.Perm (List.range shares.length)) (hunit : ∀ p ∈ shares, 0 ≤ p ∧ p ≤ 1)
    (hsum : |shares.sum - l| ≤ 0.001) (hlen : shares.length ≤ 499) (i : ℕ)
    (hi : i < shares.length) :
    |uniformDraws.real {ω | Takes l shares (Tape.mk order ω) i} - shares[i]| ≤
      0.001 * shares.length ∧
    (∀ n, ∫ ω, (entriesAfter shares (Tape.mk order ω) n).getD i 0 ∂uniformDraws = shares[i]) ∧
    uniformDraws.real {ω | Takes l shares (Tape.mk order ω) i} - shares[i] =
      ∫ ω, (cut (lastEntry shares order i ω) - lastEntry shares order i ω) ∂uniformDraws ∧
    ∀ ω, (Takes l shares (Tape.mk order ω) i ↔ cut (lastEntry shares order i ω) = 1) ∧
      (isOpen (lastEntry shares order i ω) = false →
        |cut (lastEntry shares order i ω) - lastEntry shares order i ω| < 0.001) ∧
      (isOpen (lastEntry shares order i ω) = true →
        ∀ k ≠ i, isOpen (lastEntry shares order k ω) = false) := by
  have hv : Visits order shares := Visits.of_perm horder
  have hu := inUnit_of_forall_mem hunit
  have hfin : ∀ ω, Finished shares (finalEntries shares (Tape.mk order ω)) :=
    fun ω => finished_finalEntries horder hunit
  have htakes : ∀ ω, Takes l shares (Tape.mk order ω) i ↔ 0.5 < lastEntry shares order i ω :=
    fun ω => takes_iff horder hunit hsum hlen hi
  have hmean : ∀ n, ∫ ω, (entriesAfter shares (Tape.mk order ω) n).getD i 0 ∂uniformDraws =
      shares[i] := by
    intro n
    rw [← List.getD_eq_getElem shares 0 hi]
    exact integral_settleDraws order hv hu n i
  have hlast : ∫ ω, lastEntry shares order i ω ∂uniformDraws = shares[i] := hmean shares.length
  have hmeas : Measurable (lastEntry shares order i) :=
    measurable_settleDraws (fun e => e.getD i 0) order hv shares.length
  have hint : Integrable (lastEntry shares order i) uniformDraws :=
    integrable_settleDraws order hv hu shares.length i
  have hevent : MeasurableSet {ω | 0.5 < lastEntry shares order i ω} :=
    measurableSet_lt measurable_const hmeas
  -- What an entry counts as is the indicator of the event that its index is taken.
  have hcut : (fun ω => cut (lastEntry shares order i ω)) =
      {ω | 0.5 < lastEntry shares order i ω}.indicator 1 := by
    funext ω
    simp only [cut, Set.indicator, Set.mem_ofPred_eq, Pi.one_apply]
  have hcutint : Integrable (fun ω => cut (lastEntry shares order i ω)) uniformDraws := by
    rw [hcut]
    exact (integrable_const 1).indicator hevent
  have hdiff : uniformDraws.real {ω | Takes l shares (Tape.mk order ω) i} - shares[i] =
      ∫ ω, (cut (lastEntry shares order i ω) - lastEntry shares order i ω) ∂uniformDraws := by
    rw [integral_sub hcutint hint, hlast, hcut, integral_indicator_one hevent]
    exact congrArg (fun s => uniformDraws.real s - shares[i]) (Set.ext htakes)
  refine ⟨?_, hmean, hdiff, fun ω => ⟨(htakes ω).trans ?_, ?_, fun hopen k hk => ?_⟩⟩
  · have hbound : ∀ ω, ‖cut (lastEntry shares order i ω) - lastEntry shares order i ω‖ ≤
        0.001 * shares.length := by
      intro ω
      exact (hfin ω).abs_cut_sub_le hsum ((hfin ω).length_taken_eq hsum hlen) hi
    have hnorm := norm_integral_le_of_norm_le_const (ae_of_all uniformDraws hbound)
    rw [probReal_univ, mul_one, Real.norm_eq_abs] at hnorm
    rw [hdiff]
    exact hnorm
  · unfold cut
    split
    · next h => exact iff_of_true h rfl
    · next h => exact iff_of_false h zero_ne_one
  · exact abs_cut_sub_lt ((hfin ω).unit i).1 ((hfin ω).unit i).2
  · exact (hfin ω).not_isOpen_of_ne hopen hk

/-- The five shares of a two-out-of-five selection, visited in the order 3, 0, 4, 1, 2. -/
theorem dependentRounding_marginal_five :
    |uniformDraws.real {ω | Takes 2 [0.5, 0.3, 0.7, 0.25, 0.25] (Tape.mk [3, 0, 4, 1, 2] ω) 2} -
      0.7| ≤ 0.005 := by
  have hunit : ∀ p ∈ [(0.5 : ℝ), 0.3, 0.7, 0.25, 0.25], 0 ≤ p ∧ p ≤ 1 := by
    norm_num
  have hsum : |[(0.5 : ℝ), 0.3, 0.7, 0.25, 0.25].sum - (2 : ℕ)| ≤ 0.001 := by
    norm_num
  have h := (dependentRounding_marginal 2 [0.5, 0.3, 0.7, 0.25, 0.25] [3, 0, 4, 1, 2] (by decide)
    hunit hsum (by decide) 2 (by decide)).1
  norm_num at h ⊢
  exact h

end PathSelection
