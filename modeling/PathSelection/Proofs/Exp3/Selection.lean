import PathSelection.Proofs.Exp3.Probabilities
import PathSelection.Proofs.Exp3.Reachable
import PathSelection.Proofs.Rounding.Cardinality
import PathSelection.Random.ChaCha

namespace PathSelection.Exp3

open Rounding

/-- A decision that succeeds: as many different paths as wanted. -/
def Selects (paths m : ℕ) (result : Except (Error ℝ) (Selection ℝ)) : Prop :=
  ∃ s, result = .ok s ∧ s.paths.length = m ∧ s.paths.Nodup ∧ ∀ i ∈ s.paths, i < paths

section Decide

variable {ρ : Type} [DrawSource ρ ℝ] {paths m : ℕ} {gamma : ℝ} {p : Exp3 ρ ℝ}

theorem checkPlays_of_le {wanted available : ℕ} (h : wanted ≤ available) :
    (checkPlays wanted available : Except (Error ℝ) Unit) = .ok () :=
  if_neg (not_lt.mpr h)

theorem selects_of_trivial (h : Steady paths gamma p) (hm : m = paths ∨ m = 0) :
    Selects paths m (p.decide m).1 := by
  have hle : m ≤ paths := by omega
  unfold Exp3.decide Selects
  simp only [h.length_weights, checkPlays_of_le hle]
  by_cases hall : m = paths
  · simp only [if_pos hall]
    exact ⟨_, rfl, List.length_range.trans hall.symm, List.nodup_range,
      fun i hi => List.mem_range.mp hi⟩
  · have hzero : m = 0 := hm.resolve_left hall
    simp only [if_neg hall, if_pos hzero]
    exact ⟨_, rfl, hzero.symm, List.nodup_nil, fun i hi => absurd hi List.not_mem_nil⟩

/-- The number of paths that rounding takes decides whether a decision succeeds. -/
theorem decide_fst (h : Steady paths gamma p) (hm : 1 ≤ m) (hlt : m < paths) :
    ∃ cap, Capping (shareLimit gamma paths m) m p.weights cap ∧
      (p.decide m).1 =
        if (taken (finalEntries (chances gamma m cap p.weights) p.rng)).length = m then
          .ok ⟨.exp3, taken (finalEntries (chances gamma m cap p.weights) p.rng),
            some (chances gamma m cap p.weights), capNotes cap⟩
        else .error (.roundingCardinality m
          (taken (finalEntries (chances gamma m cap p.weights) p.rng)).length) := by
  obtain ⟨rfl, h0, h1, rfl, hpos⟩ := h
  obtain ⟨cap, hcap, hprepare⟩ := prepare_eq p h0 h1 hm hlt hpos
  refine ⟨cap, hcap, ?_⟩
  have hsum := hcap.sum_chances (Nat.zero_lt_of_lt hlt) hpos
  have hfit : |(chances p.gamma m cap p.weights).sum - m| ≤ 0.001 := by
    rw [hsum, sub_self, abs_zero]
    norm_num
  have hround := dependentRounding_fst p.rng hfit
  have hsome : m ≠ 0 := Nat.one_le_iff_ne_zero.mp hm
  unfold Exp3.decide
  simp only [checkPlays_of_le hlt.le, if_neg hlt.ne, if_neg hsome, hprepare]
  generalize dependentRounding m (chances p.gamma m cap p.weights) p.rng = result at hround ⊢
  obtain ⟨chosen, rng⟩ := result
  dsimp only at hround
  split at hround
  · next hcount =>
    rw [if_pos hcount, hround]
  · next hcount =>
    rw [if_neg hcount, hround]

theorem finished_chances (hlawful : LawfulDraws ρ) (h : Steady paths gamma p) (hm : 1 ≤ m)
    (hlt : m < paths) {cap : Option ℝ}
    (hcap : Capping (shareLimit gamma paths m) m p.weights cap) :
    Finished (chances gamma m cap p.weights)
      (finalEntries (chances gamma m cap p.weights) p.rng) := by
  obtain ⟨-, h0, h1, rfl, hpos⟩ := h
  apply finished_finalEntries (hlawful.order_perm _ _)
  intro x hx
  obtain ⟨hlow, hhigh⟩ := hcap.chances_mem h1 hm (Nat.zero_lt_of_lt hlt) hpos x hx
  have hzero : 0 ≤ m * gamma / p.weights.length :=
    div_nonneg (mul_nonneg (Nat.cast_nonneg m) h0.le) (Nat.cast_nonneg _)
  exact ⟨hzero.trans hlow, hhigh⟩

/-- A decision fails only when rounding takes a wrong number of paths, although the probabilities
sum to the right one. -/
theorem selects_or_rounds (hlawful : LawfulDraws ρ) (h : Steady paths gamma p) (hm : m ≤ paths) :
    Selects paths m (p.decide m).1 ∨
      ∃ shares final, Finished shares final ∧ shares.length = paths ∧ shares.sum = m ∧
        (taken final).length ≠ m ∧
        (p.decide m).1 = .error (.roundingCardinality m (taken final).length) := by
  by_cases htrivial : m = paths ∨ m = 0
  · exact Or.inl (selects_of_trivial h htrivial)
  · have hlt : m < paths := by omega
    have hone : 1 ≤ m := by omega
    obtain ⟨cap, hcap, hdecide⟩ := decide_fst h hone hlt
    have hfin := finished_chances hlawful h hone hlt hcap
    obtain ⟨-, -, -, rfl, hpos⟩ := h
    rw [hdecide]
    split
    · next hcount =>
      refine Or.inl ⟨_, rfl, hcount, pairwise_lt_taken.imp fun hlt => ne_of_lt hlt, fun i hi => ?_⟩
      have hi' := (mem_taken.mp hi).1
      rw [hfin.length_eq, length_chances] at hi'
      exact hi'
    · next hcount =>
      exact Or.inr ⟨_, _, hfin, length_chances, hcap.sum_chances (Nat.zero_lt_of_lt hlt) hpos,
        hcount, rfl⟩

theorem selects_of_le (hlawful : LawfulDraws ρ) (h : Steady paths gamma p) (hm : m ≤ paths)
    (hpaths : paths ≤ 501) : Selects paths m (p.decide m).1 := by
  rcases selects_or_rounds hlawful h hm with hselects | ⟨shares, final, hfin, rfl, hsum, hcount, -⟩
  · exact hselects
  · exact absurd (hfin.length_taken_eq_of_sum_eq hsum hpaths) hcount

end Decide

section Loss

variable {ρ : Type} [DrawSource ρ ℝ] {paths : ℕ} {gamma : ℝ} {p : Exp3 ρ ℝ}

theorem Capping.eq_none {limit : ℝ} {weights : List ℝ} {cap : Option ℝ}
    (h : Capping limit 1 weights cap) : cap = none := by
  cases h with
  | free h => rfl
  | capped hover h =>
    -- At least one path but fewer than the single play would be capped.
    exact absurd h.one_le_countP (Nat.not_le.mpr h.countP_lt)

/-- A single play fails when all probabilities but one are decided to be zero from the start and
that one is not above one half. -/
theorem decide_one_of_low (hlawful : LawfulDraws ρ) (h : Steady paths gamma p) (hlt : 1 < paths)
    {w : ℝ} {lighter : List ℝ} (hweights : p.weights = w :: lighter)
    (hw : mixture gamma 1 paths (w :: lighter).sum w ≤ 0.5)
    (hlighter : ∀ v ∈ lighter, mixture gamma 1 paths (w :: lighter).sum v < 0.001) :
    (p.decide 1).1 = .error (.roundingCardinality 1 0) := by
  obtain ⟨cap, hcap, hdecide⟩ := decide_fst h le_rfl hlt
  obtain rfl := hcap.eq_none
  have hshares : chances gamma 1 none p.weights =
      (w :: lighter).map (mixture gamma 1 paths (w :: lighter).sum) := by
    unfold chances
    rw [show p.weights.map (counted none) = p.weights from List.map_id _, h.length_weights,
      hweights]
    rfl
  have htaken : taken (finalEntries (chances gamma 1 none p.weights) p.rng) = [] := by
    apply taken_finalEntries_eq_nil (hlawful.order_perm _ _) (i := 0)
    · rw [hshares, List.map_cons, List.getD_cons_zero]
      exact hw
    · intro k hk
      obtain ⟨j, rfl⟩ := Nat.exists_eq_succ_of_ne_zero hk
      rw [hshares, List.map_cons, List.getD_cons_succ]
      rcases lt_or_ge j (lighter.map (mixture gamma 1 paths (w :: lighter).sum)).length with hj | hj
      · rw [List.getD_eq_getElem _ 0 hj, List.getElem_map]
        exact hlighter _ (List.getElem_mem _)
      · rw [List.getD_eq_default _ _ hj]
        norm_num
  rw [htaken] at hdecide
  exact hdecide

/-- With many paths the equal probabilities of the start are all rounded to zero. -/
theorem decide_one_start (hlawful : LawfulDraws ρ) (h0 : 0 < gamma) (h1 : gamma < 1) (rng : ρ)
    (hpaths : 1001 ≤ paths) :
    ((start paths gamma rng).decide 1).1 = .error (.roundingCardinality 1 0) := by
  obtain ⟨n, rfl⟩ : ∃ n, paths = n + 1 := ⟨paths - 1, by omega⟩
  have hn' : (1000 : ℝ) ≤ n := by exact_mod_cast Nat.le_of_succ_le_succ hpaths
  have hsum : ((1 : ℝ) :: List.replicate n 1).sum = n + 1 := by
    rw [List.sum_cons, List.sum_replicate, nsmul_eq_mul, mul_one, add_comm]
  have hshare : mixture gamma 1 (n + 1) ((1 : ℝ) :: List.replicate n 1).sum 1 < 0.001 := by
    unfold mixture
    rw [hsum]
    push_cast
    rw [mul_one, one_mul, ← add_div, sub_add_cancel, div_lt_iff₀ (by linarith)]
    linarith
  apply decide_one_of_low hlawful (steady_new (new_real h0 h1 (n + 1) rng)) (by omega)
    List.replicate_succ
  · linarith
  · intro v hv
    rw [List.eq_of_mem_replicate hv]
    exact hshare

/-- The state after one update in which the first of `n + 1` paths has proved so good that its
weight is 501 times that of the others. -/
noncomputable def grown (n : ℕ) (gamma : ℝ) (rng : ρ) : Exp3 ρ ℝ :=
  ((start (n + 1) gamma rng).update [0] [⟨0, (n + 1) * Real.log 501 / gamma, 0⟩]).2

/-- With fewer paths it takes a path that has learned to push all others below the lower edge. -/
theorem decide_one_grown (hlawful : LawfulDraws ρ) (rng : ρ) {n : ℕ} (hn : 501 ≤ n) :
    ((grown n 0.001 rng).decide 1).1 = .error (.roundingCardinality 1 0) := by
  have hn' : (501 : ℝ) ≤ n := by exact_mod_cast hn
  have h0 : (0 : ℝ) < 0.001 := by norm_num
  have hsteady : Steady (n + 1) 0.001 (grown n 0.001 rng) :=
    (steady_new (new_real h0 (by norm_num) (n + 1) rng)).update _ _
  have hweights : (grown n 0.001 rng).weights = 501 :: List.replicate n 1 := by
    refine weights_update_start n h0 (by norm_num) ?_ rng
    unfold weightLimit
    norm_num
  have hsum : ((501 : ℝ) :: List.replicate n 1).sum = 501 + n := by
    rw [List.sum_cons, List.sum_replicate, nsmul_eq_mul, mul_one]
  have huniform : (0.001 : ℝ) / (n + 1) ≤ 0.001 / 502 :=
    div_le_div_of_nonneg_left h0.le (by norm_num) (by linarith)
  apply decide_one_of_low hlawful hsteady (by omega) hweights
  · have hshare : (1 - 0.001) * 501 / (501 + (n : ℝ)) ≤ 0.4995 := by
      rw [div_le_iff₀ (by linarith)]
      linarith
    unfold mixture
    rw [hsum]
    push_cast
    linarith
  · intro v hv
    have hshare : (1 - 0.001) * 1 / (501 + (n : ℝ)) ≤ 0.999 / 1002 := by
      rw [div_le_div_iff₀ (by linarith) (by norm_num)]
      linarith
    rw [List.eq_of_mem_replicate hv, hsum]
    unfold mixture
    push_cast
    linarith

end Loss

/-- A decision fails only when rounding takes a wrong number of paths. All decisions of all
reachable states succeed exactly when there are at most 501 paths. -/
theorem decide_selects_iff (paths : ℕ) :
    (∀ (ρ : Type) [DrawSource ρ ℝ], LawfulDraws ρ → ∀ (gamma : ℝ) (p : Exp3 ρ ℝ),
      Reachable paths gamma p → ∀ m ≤ paths, Selects paths m (p.decide m).1 ∨
        ∃ n ≠ m, (p.decide m).1 = .error (.roundingCardinality m n)) ∧
    ((∀ (ρ : Type) [DrawSource ρ ℝ], LawfulDraws ρ → ∀ (gamma : ℝ) (p : Exp3 ρ ℝ),
      Reachable paths gamma p → ∀ m ≤ paths, Selects paths m (p.decide m).1) ↔ paths ≤ 501) := by
  refine ⟨fun ρ _ hlawful gamma p h m hm => ?_, fun hall => ?_,
    fun hpaths ρ _ hlawful gamma p h m hm => selects_of_le hlawful h.steady hm hpaths⟩
  · rcases selects_or_rounds hlawful h.steady hm with hselects | ⟨_, _, -, -, -, hcount, herror⟩
    · exact Or.inl hselects
    · exact Or.inr ⟨_, hcount, herror⟩
  -- For more paths one update of the first path leads to a state from which no play succeeds.
  by_contra hpaths
  obtain ⟨n, rfl⟩ : ∃ n, paths = n + 1 := ⟨paths - 1, by omega⟩
  let rng : RealWords ChaCha := ⟨ChaCha.ofSeed 0⟩
  have hreach : Reachable (n + 1) 0.001 (grown n 0.001 rng) :=
    Reachable.update _ _ (Reachable.new rng (new_real (by norm_num) (by norm_num) (n + 1) rng))
  have hfails := decide_one_grown lawfulDraws_realWords rng (show 501 ≤ n by omega)
  obtain ⟨s, hok, -⟩ := hall (RealWords ChaCha) lawfulDraws_realWords 0.001 _ hreach 1 (by omega)
  rw [hfails] at hok
  exact absurd hok (by simp)

/-- The first decision of a new policy for one of 1001 paths. -/
theorem decide_fails_start :
    Exp3.new 1001 0.1 (⟨ChaCha.ofSeed 1⟩ : RealWords ChaCha) =
      .ok (start 1001 (0.1 : ℝ) ⟨ChaCha.ofSeed 1⟩) ∧
    ((start 1001 (0.1 : ℝ) (⟨ChaCha.ofSeed 1⟩ : RealWords ChaCha)).decide 1).1 =
      .error (.roundingCardinality 1 0) :=
  ⟨new_real (by norm_num) (by norm_num) 1001 _,
    decide_one_start lawfulDraws_realWords (by norm_num) (by norm_num) _ le_rfl⟩

end PathSelection.Exp3
