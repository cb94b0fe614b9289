import Mathlib.Data.List.GetD
import PathSelection.Policy.Exp3
import PathSelection.Proofs.Reals

namespace PathSelection.Exp3

variable {ρ : Type}

section Kept

variable {α : Type} [Scalar α]

theorem length_growths (p : Exp3 ρ α) (selected : List ℕ) (measurements : List (Metric α)) :
    (p.growths selected measurements).length = p.weights.length := by
  unfold growths
  apply List.foldlRecOn (motive := fun e : List α => e.length = p.weights.length)
  · exact List.length_replicate
  · intro e he pair _
    dsimp only
    split
    · rw [List.length_set]
      exact he
    · exact he

theorem length_grow {exponents weights : List α} (hlen : exponents.length = weights.length) :
    (grow exponents weights).length = weights.length := by
  unfold grow
  dsimp only
  split <;> simp [hlen]

theorem kept_of_prepare {p q : Exp3 ρ α} {m : ℕ} (h : p.prepare m = .ok q) :
    q.gamma = p.gamma ∧ q.weights = p.weights := by
  unfold prepare at h
  split at h
  · exact absurd h (by simp)
  · obtain rfl := Except.ok.inj h
    exact ⟨rfl, rfl⟩

theorem kept_of_decide [DrawSource ρ α] (p : Exp3 ρ α) (m : ℕ) :
    (p.decide m).2.gamma = p.gamma ∧ (p.decide m).2.weights = p.weights := by
  unfold Exp3.decide
  dsimp only
  split
  · exact ⟨rfl, rfl⟩
  · split
    · exact ⟨rfl, rfl⟩
    · split
      · exact ⟨rfl, rfl⟩
      · split
        · exact ⟨rfl, rfl⟩
        · next hprepare =>
          have hkept := kept_of_prepare hprepare
          split <;> exact hkept

end Kept

section Grow

variable {exponents weights : List ℝ}

theorem weightFloor_pos : (0 : ℝ) < weightFloor := by
  unfold weightFloor
  norm_num

theorem grow_pos (hpos : ∀ w ∈ weights, 0 < w) : ∀ w ∈ grow exponents weights, 0 < w := by
  -- What is written is at least the floor; a weight that is not written stays as it is.
  have hwrite : ∀ l : ℝ, 0 < Scalar.max (Scalar.exp l) weightFloor := by
    intro l
    rw [Scalar.max_real]
    exact lt_max_of_lt_right weightFloor_pos
  unfold grow
  dsimp only
  split
  · intro w hw
    obtain ⟨l, -, rfl⟩ := List.mem_map.mp hw
    exact hwrite _
  · intro w hw
    obtain ⟨i, hi, rfl⟩ := List.mem_iff_getElem.mp hw
    rw [List.getElem_zipWith, List.getElem_zip]
    dsimp only
    split
    · exact hpos _ (List.getElem_mem _)
    · exact hwrite _

theorem foldl_max_of_le {top : ℝ} {xs : List ℝ} (h : ∀ x ∈ xs, x ≤ top) :
    xs.foldl Scalar.max top = top := by
  induction xs with
  | nil => rfl
  | cons x xs ih =>
    rw [List.foldl_cons, Scalar.max_real, max_eq_left (h x List.mem_cons_self)]
    exact ih fun y hy => h y (List.mem_cons_of_mem x hy)

/-- Among equal weights one grows by a factor, if it does not exceed the limit, and the others stay
as they are. -/
theorem grow_head (n : ℕ) {factor : ℝ} (hone : 1 < factor) (hlimit : factor ≤ weightLimit) :
    grow (Real.log factor :: List.replicate n 0) (List.replicate (n + 1) 1) =
      factor :: List.replicate n 1 := by
  have hlog : 0 < Real.log factor := Real.log_pos hone
  have hlogs : List.zipWith (fun w e : ℝ => Scalar.log w + e) (List.replicate (n + 1) 1)
      (Real.log factor :: List.replicate n 0) = Real.log factor :: List.replicate n 0 := by
    have hzero : Scalar.log (1 : ℝ) = 0 := Real.log_one
    rw [List.replicate_succ, List.zipWith_cons_cons, List.zipWith_replicate, Nat.min_self, hzero,
      zero_add, zero_add]
  have hscale : rescaling? (Real.log factor :: List.replicate n 0) = none := by
    have htop : largest? (Real.log factor :: List.replicate n 0) = some (Real.log factor) :=
      congrArg some (foldl_max_of_le fun x hx => (List.eq_of_mem_replicate hx).trans_le hlog.le)
    unfold rescaling?
    rw [htop]
    exact if_neg (not_lt.mpr (Real.log_le_log (one_pos.trans hone) hlimit))
  have hfloor : weightFloor ≤ factor := by
    apply le_trans _ hone.le
    unfold weightFloor
    norm_num
  have hexp : Scalar.exp (Real.log factor - 0) = factor := by
    rw [sub_zero]
    exact Real.exp_log (one_pos.trans hone)
  unfold grow
  simp only [hlogs, hscale, Scalar.zero_real]
  rw [List.replicate_succ, List.zip_cons_cons, List.zipWith_cons_cons, List.zip_replicate',
    List.zipWith_replicate', Scalar.max_real, hexp, max_eq_left hfloor, if_neg, if_pos]
  · exact beq_self_eq_true _
  · rw [beq_iff_eq]
    exact hlog.ne'

end Grow

/-- What all states for a number of paths and a rate of exploration have in common. -/
structure Steady (paths : ℕ) (gamma : ℝ) (p : Exp3 ρ ℝ) : Prop where
  gamma_eq : p.gamma = gamma
  gamma_pos : 0 < gamma
  gamma_lt_one : gamma < 1
  length_weights : p.weights.length = paths
  weights_pos : ∀ w ∈ p.weights, 0 < w

variable {paths : ℕ} {gamma : ℝ} {p : Exp3 ρ ℝ}

theorem steady_new {rng : ρ} (h : Exp3.new paths gamma rng = .ok p) : Steady paths gamma p := by
  unfold Exp3.new at h
  split at h
  · next hgamma =>
    obtain rfl := Except.ok.inj h
    rw [Scalar.zero_real, Scalar.one_real] at hgamma
    refine ⟨rfl, hgamma.1, hgamma.2, List.length_replicate, fun w hw => ?_⟩
    rw [List.eq_of_mem_replicate hw, Scalar.one_real]
    exact one_pos
  · exact absurd h (by simp)

/-- What a decision does, by the number of plays and, where probabilities are needed, by whether
they exist. -/
inductive Decision [DrawSource ρ ℝ] (m : ℕ) (p : Exp3 ρ ℝ) :
    Except (Error ℝ) (Selection ℝ) × Exp3 ρ ℝ → Prop
  | tooMany (h : p.weights.length < m) :
      Decision m p (.error (.tooManyPaths m p.weights.length), p)
  | all (h : m = p.weights.length) :
      Decision m p (.ok ⟨.exp3, List.range m, some (List.replicate m 1), [.allPaths]⟩,
        { p with cap := none, probabilities := List.replicate m 1 })
  | none (h : m = 0) (hpaths : 0 < p.weights.length) :
      Decision m p (.ok ⟨.exp3, [], Option.none, []⟩, p)
  | uncapped (h1 : 1 ≤ m) (hlt : m < p.weights.length) {e : Error ℝ}
      (hprepare : p.prepare m = .error e) : Decision m p (.error e, p)
  | rounded (h1 : 1 ≤ m) (hlt : m < p.weights.length) {q : Exp3 ρ ℝ}
      (hprepare : p.prepare m = .ok q) :
      Decision m p
        ((dependentRounding m q.probabilities q.rng).1.map fun selected =>
          ⟨.exp3, selected, some q.probabilities, capNotes q.cap⟩,
        { q with rng := (dependentRounding m q.probabilities q.rng).2 })

theorem decision_decide [DrawSource ρ ℝ] (m : ℕ) (p : Exp3 ρ ℝ) : Decision m p (p.decide m) := by
  unfold Exp3.decide checkPlays
  dsimp only
  rcases lt_trichotomy p.weights.length m with hmany | rfl | hfew
  · rw [if_pos hmany]
    exact .tooMany hmany
  · rw [if_neg (lt_irrefl _)]
    simp only [if_true, Scalar.one_real]
    exact .all rfl
  · rw [if_neg hfew.not_gt]
    simp only [if_neg hfew.ne]
    by_cases hzero : m = 0
    · rw [if_pos hzero]
      exact .none hzero (Nat.zero_lt_of_lt hfew)
    · rw [if_neg hzero]
      have hone : 1 ≤ m := Nat.one_le_iff_ne_zero.mpr hzero
      cases hprepare : p.prepare m with
      | error e => exact .uncapped hone hfew hprepare
      | ok q =>
        have h := Decision.rounded hone hfew hprepare
        dsimp only
        cases hround : dependentRounding m q.probabilities q.rng with
        | mk result rng =>
          rw [hround] at h
          cases result <;> exact h

theorem Steady.decide [DrawSource ρ ℝ] (h : Steady paths gamma p) (m : ℕ) :
    Steady paths gamma (p.decide m).2 := by
  have hkept := kept_of_decide p m
  exact ⟨hkept.1.trans h.gamma_eq, h.gamma_pos, h.gamma_lt_one, hkept.2 ▸ h.length_weights,
    hkept.2 ▸ h.weights_pos⟩

theorem Steady.update (h : Steady paths gamma p) (selected : List ℕ)
    (measurements : List (Metric ℝ)) : Steady paths gamma (p.update selected measurements).2 := by
  unfold Exp3.update
  split
  · exact h
  · refine ⟨h.gamma_eq, h.gamma_pos, h.gamma_lt_one, ?_, grow_pos h.weights_pos⟩
    exact (length_grow (length_growths p selected measurements)).trans h.length_weights

/-- The states that a policy can reach by selecting and learning, also when some of these fail. -/
inductive Reachable [DrawSource ρ ℝ] (paths : ℕ) (gamma : ℝ) : Exp3 ρ ℝ → Prop
  | new {p : Exp3 ρ ℝ} (rng : ρ) (h : Exp3.new paths gamma rng = .ok p) : Reachable paths gamma p
  | decide {p : Exp3 ρ ℝ} (m : ℕ) (h : Reachable paths gamma p) :
      Reachable paths gamma (p.decide m).2
  | update {p : Exp3 ρ ℝ} (selected : List ℕ) (measurements : List (Metric ℝ))
      (h : Reachable paths gamma p) : Reachable paths gamma (p.update selected measurements).2

theorem Reachable.steady [DrawSource ρ ℝ] (h : Reachable paths gamma p) :
    Steady paths gamma p := by
  induction h with
  | new rng h => exact steady_new h
  | decide m _ ih => exact ih.decide m
  | update selected measurements _ ih => exact ih.update selected measurements

section Start

/-- The equal weights and probabilities that the policy starts with. -/
noncomputable def start (n : ℕ) (gamma : ℝ) (rng : ρ) : Exp3 ρ ℝ :=
  ⟨gamma, List.replicate n 1, List.replicate n 1, none, rng⟩

theorem new_real {gamma : ℝ} (h0 : 0 < gamma) (h1 : gamma < 1) (n : ℕ) (rng : ρ) :
    Exp3.new n gamma rng = .ok (start n gamma rng) := by
  unfold Exp3.new
  rw [Scalar.zero_real, Scalar.one_real, if_pos ⟨h0, h1⟩]
  rfl

theorem weights_update_start (n : ℕ) {gamma factor : ℝ} (h0 : 0 < gamma) (hone : 1 < factor)
    (hlimit : factor ≤ weightLimit) (rng : ρ) :
    ((start (n + 1) gamma rng).update [0] [⟨0, (n + 1) * Real.log factor / gamma, 0⟩]).2.weights =
      factor :: List.replicate n 1 := by
  have hgrowth : (start (n + 1) gamma rng).growth 1 0 ((n + 1) * Real.log factor / gamma) =
      some (Real.log factor) := by
    have hlearns : (true && Decidable.decide ((Scalar.instOfNat 0 : OfNat ℝ 0).ofNat < 1) &&
        Scalar.isFinite ((n + 1) * Real.log factor / gamma)) = true := by
      rw [Scalar.zero_real, decide_eq_true one_pos]
      rfl
    unfold growth start
    simp only [List.replicate_succ, List.getD_cons_zero, List.length_cons, List.length_replicate]
    rw [if_pos hlearns]
    congr 1
    push_cast
    field_simp
  have hgrowths : (start (n + 1) gamma rng).growths [0]
      [⟨0, (n + 1) * Real.log factor / gamma, 0⟩] = Real.log factor :: List.replicate n 0 := by
    unfold growths
    rw [List.zip_cons_cons, List.foldl_cons]
    simp only [List.length_singleton, hgrowth]
    rw [start, List.length_replicate, List.replicate_succ, Scalar.zero_real]
    rfl
  have hcheck : checkFeedback (n + 1) [0] [(⟨0, (n + 1) * Real.log factor / gamma, 0⟩ : Metric ℝ)] =
      .ok () := rfl
  unfold Exp3.update
  rw [hgrowths]
  simp only [start, List.length_replicate, hcheck]
  exact grow_head n hone hlimit

end Start

end PathSelection.Exp3
