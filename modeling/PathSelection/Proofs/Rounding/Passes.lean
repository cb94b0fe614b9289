import PathSelection.Proofs.Rounding.Cardinality
/-!
How dependent rounding comes to its end, also for shares outside of the unit interval. A pass takes
the first two undecided positions of the whole visiting order; the run with a limited number of
steps, which forgets the positions that it has left behind, makes just these passes.
-/
namespace PathSelection.Rounding

variable {ρ : Type} {entries : List ℝ} {order : List ℕ} {i j : ℕ} {rest : List ℕ}

/-- So many passes of the loop from one state of the entries and of the source to another. Each one
takes the first two undecided positions and one draw. -/
inductive Passes (draw : ρ → ℝ × ρ) (order : List ℕ) : ℕ → List ℝ × ρ → List ℝ × ρ → Prop
  | none (s : List ℝ × ρ) : Passes draw order 0 s s
  | pass {n : ℕ} {s t : List ℝ × ρ} {i j : ℕ} {rest : List ℕ}
      (hpair : undecided order s.1 = i :: j :: rest)
      (h : Passes draw order n (step i j (draw s.2).1 s.1, (draw s.2).2) t) :
      Passes draw order (n + 1) s t

/-- What a pass on two positions does to the entries. The mass that can be moved is positive in sum,
so that the chance of moving it upwards is defined. -/
structure Progress (entries : List ℝ) (i j : ℕ) (after : List ℝ) : Prop where
  room_pos : 0 < room (entries.getD i 0) (entries.getD j 0) +
    Scalar.min (entries.getD i 0) (1 - entries.getD j 0)
  kept : ∀ k, isOpen (entries.getD k 0) = false → after.getD k 0 = entries.getD k 0
  open_mem : ∀ k, isOpen (after.getD k 0) = true →
    0.001 ≤ after.getD k 0 ∧ after.getD k 0 ≤ 0.999
  hits_end : (after.getD i 0 = 0 ∨ after.getD i 0 = 1) ∨ (after.getD j 0 = 0 ∨ after.getD j 0 = 1)
  decides : isOpen (after.getD i 0) = false ∨ isOpen (after.getD j 0) = false

section Pass

theorem progress_step (h : OpenPair entries i j) (u : ℝ) :
    Progress entries i j (step i j u entries) where
  room_pos := by
    have hup := upMass_pos h.fst_open h.snd_open
    have hdown := downMass_pos h.fst_open h.snd_open
    unfold room
    rw [Scalar.one_real, Scalar.min_real, Scalar.min_real]
    exact add_pos hup hdown
  kept _ hk := getD_step_of_not_isOpen h u hk
  open_mem _ hk := (isOpen_real _).mp hk
  hits_end := step_hits_end h u
  decides := step_decides h u

/-- A step opens no position, so that the undecided ones are some of those before it. -/
theorem undecided_step (h : OpenPair entries i j) (u : ℝ) (visits : List ℕ) :
    undecided visits (step i j u entries) =
      (undecided visits entries).filter fun k => isOpen ((step i j u entries).getD k 0) := by
  unfold undecided
  rw [List.filter_filter]
  apply List.filter_congr
  intro k _
  cases hk : isOpen (entries.getD k 0) with
  | true => rw [Bool.and_true]
  | false => rw [getD_step_of_not_isOpen h u hk, hk, Bool.and_false]

theorem one_lt_card_openPositions (h : OpenPair entries i j) : 1 < (openPositions entries).card :=
  Finset.one_lt_card.mpr
    ⟨i, mem_openPositions.mpr h.fst_open, j, mem_openPositions.mpr h.snd_open, h.ne⟩

/-- Each pass decides an entry, and the last one still finds two that are not. -/
theorem Passes.lt_card {draw : ρ → ℝ × ρ} (hnodup : order.Nodup) {n : ℕ} {s t : List ℝ × ρ}
    (h : Passes draw order n s t) : n = 0 ∨ n < (openPositions s.1).card := by
  induction h with
  | none s => exact Or.inl rfl
  | @pass n s t i j rest hpair _ ih =>
    have hopen := openPair_of_undecided hnodup hpair
    have htwo := one_lt_card_openPositions hopen
    have hfewer := Finset.card_lt_card (openPositions_step_ssubset hopen (draw s.2).1)
    dsimp only at ih
    omega

end Pass

/-- Positions that are decided may be missing from the order of a run: it makes the passes of the
whole order. -/
theorem settle_passes (hnodup : order.Nodup) (draw : ρ → ℝ × ρ) (fuel : ℕ) {visits : List ℕ}
    (hsame : undecided visits entries = undecided order entries) (rng : ρ) :
    ∃ n, Passes draw order n (entries, rng) (settle draw fuel visits entries rng) := by
  induction fuel generalizing visits entries rng with
  | zero => exact ⟨0, .none _⟩
  | succ fuel ih =>
    rcases settle_succ draw fuel visits entries with
      ⟨-, hend⟩ | ⟨i, j, rest, later, hvisits, -, hlater, hnext⟩
    · rw [hend]
      exact ⟨0, .none _⟩
    · rw [hnext]
      have hpair : undecided order entries = i :: j :: rest := hsame.symm.trans hvisits
      have hopen := openPair_of_undecided hnodup hpair
      -- The run has passed by decided positions only, which the step has not opened again.
      have hsame' : undecided (i :: j :: later) (step i j (draw rng).1 entries) =
          undecided order (step i j (draw rng).1 entries) := by
        rw [undecided_step hopen, undecided_step hopen, hlater, hpair]
      obtain ⟨n, hpasses⟩ := ih hsame' (draw rng).2
      exact ⟨n + 1, .pass hpair hpasses⟩

end PathSelection.Rounding

namespace PathSelection

open Rounding

/-- Rounding with exact numbers ends for all shares whose sum is right, any visiting order and any
draws. Whatever the loop has come to, the next pass makes progress, and there are fewer passes than
entries, and none if no two entries are undecided. -/
theorem dependentRounding_ends {ρ : Type} [DrawSource ρ ℝ] (l : ℕ) (shares : List ℝ) (rng : ρ)
    (horder : (DrawSource.order shares.length rng).1.Perm (List.range shares.length))
    (hsum : sumFits l shares = true) :
    let order := (DrawSource.order shares.length rng).1
    let start := (shares, (DrawSource.order shares.length rng).2)
    (∀ n entries source, Passes DrawSource.uniform order n start (entries, source) →
      n ≤ shares.length - 1 ∧ ((openPositions shares).card ≤ 1 → n = 0) ∧
      ∀ i j rest, undecided order entries = i :: j :: rest →
        Progress entries i j (step i j (DrawSource.uniform source).1 entries)) ∧
    ∃ n entries source, Passes DrawSource.uniform order n start (entries, source) ∧
      (openPositions entries).card ≤ 1 ∧
      dependentRounding l shares rng =
        (if (taken entries).length = l then .ok (taken entries)
          else .error (.roundingCardinality l (taken entries).length), source) := by
  intro order start
  have hnodup : order.Nodup := horder.nodup_iff.mpr List.nodup_range
  have hlength := card_openPositions_le shares
  constructor
  · intro n entries source hpasses
    have hlt : n = 0 ∨ n < (openPositions shares).card := hpasses.lt_card hnodup
    refine ⟨by omega, by omega, fun i j rest hpair => ?_⟩
    exact progress_step (openPair_of_undecided hnodup hpair) _
  · obtain ⟨n, hpasses⟩ := settle_passes hnodup DrawSource.uniform shares.length
      (rfl : undecided order shares = undecided order shares) start.2
    refine ⟨n, _, _, hpasses, ?_, dependentRounding_of_settle hsum rfl⟩
    exact card_openPositions_settle (Visits.of_perm horder) _ hlength _

/-- Four shares of which one is above and one below the unit interval, visited in the order 2, 0, 3,
1. -/
theorem dependentRounding_ends_outside :
    ∃ n ≤ 3, ∃ entries source,
      Passes DrawSource.uniform [2, 0, 3, 1] n
          ([1.5, -0.6, 0.4, 0.7], Tape.mk [2, 0, 3, 1] fun _ => 0.25) (entries, source) ∧
        (openPositions entries).card ≤ 1 := by
  have hsum : sumFits 2 [(1.5 : ℝ), -0.6, 0.4, 0.7] = true := by
    rw [sumFits_real]
    norm_num [abs_le]
  obtain ⟨hrun, n, entries, source, hpasses, hcard, -⟩ := dependentRounding_ends 2
    [1.5, -0.6, 0.4, 0.7] (Tape.mk [2, 0, 3, 1] fun _ => 0.25) (by decide) hsum
  exact ⟨n, (hrun n entries source hpasses).1, entries, source, hpasses, hcard⟩

end PathSelection
