import PathSelection.Policy.Constrained
import PathSelection.Proofs.Policy

namespace PathSelection.Constrained

variable {ρ α : Type} [Scalar α]

/-- What all states of a policy have in common. -/
structure Steady (resource : Resource) (paths : Nat) (threshold : α) (p : Constrained ρ α) :
    Prop where
  resource_eq : p.resource = resource
  threshold_eq : p.threshold = threshold
  length_beliefs : p.beliefs.length = paths

variable {resource : Resource} {paths : Nat} {threshold : α} {p : Constrained ρ α}

/-- When there is a policy with some parameters, and what it is then. -/
theorem new_eq_ok_iff {engine : Lp.Engine α} {damping : α} {rng : ρ} :
    Constrained.new engine resource paths threshold damping rng = .ok p ↔
      Scalar.isFinite threshold = true ∧ (0 ≤ damping ∧ damping < 1) ∧
        p = ⟨engine, resource, threshold, damping, List.replicate paths Belief.initial, rng⟩ := by
  unfold Constrained.new
  cases hfinite : Scalar.isFinite threshold with
  | false =>
    rw [if_pos (by decide)]
    simp
  | true =>
    rw [if_neg (by decide)]
    by_cases hdamping : 0 ≤ damping ∧ damping < 1
    · rw [if_pos hdamping, Except.ok.injEq, eq_comm]
      exact ⟨fun h => ⟨rfl, hdamping, h⟩, fun h => h.2.2⟩
    · rw [if_neg hdamping]
      exact iff_of_false (by simp) fun h => hdamping h.2.1

theorem steady_new {engine : Lp.Engine α} {damping : α} {rng : ρ}
    (h : Constrained.new engine resource paths threshold damping rng = .ok p) :
    Steady resource paths threshold p := by
  obtain ⟨-, -, rfl⟩ := new_eq_ok_iff.mp h
  exact ⟨rfl, rfl, List.length_replicate⟩

theorem Steady.updateAveraged (h : Steady resource paths threshold p) (selected : List Nat)
    (measurements : List (Metric α)) :
    Steady resource paths threshold (p.updateAveraged selected measurements).2 := by
  unfold Constrained.updateAveraged
  split
  · exact h
  · exact ⟨h.resource_eq, h.threshold_eq, (length_foldl_modify _ _ _ _).trans h.length_beliefs⟩

theorem length_forgetOthers (memory : α) (selected : List Nat) (beliefs : List (Belief α)) :
    (forgetOthers memory selected beliefs).length = beliefs.length :=
  List.length_mapIdx

variable [RandomSource ρ α]

theorem length_sampleAll (beliefs : List (Belief α)) (rng : ρ) :
    (sampleAll beliefs rng).1.length = beliefs.length := by
  induction beliefs generalizing rng with
  | nil => rfl
  | cons belief beliefs ih =>
    unfold sampleAll
    rw [List.length_cons, List.length_cons, ih]

theorem length_learn (resource : Resource) (observe : BetaArm α → Bool → BetaArm α)
    (entries : List (Nat × Metric α)) (beliefs : List (Belief α)) (rng : ρ) :
    (learn resource observe entries beliefs rng).1.length = beliefs.length := by
  induction entries generalizing beliefs rng with
  | nil => rfl
  | cons entry entries ih =>
    unfold learn
    rw [ih, List.length_modify]

theorem decideFrom_snd (costs bandwidths : List α) (m : Nat) (origin : Note α)
    (p : Constrained ρ α) :
    ∃ rng, (p.decideFrom costs bandwidths m origin).2 = { p with rng := rng } := by
  unfold decideFrom
  split
  · exact ⟨p.rng, rfl⟩
  · exact ⟨p.rng, rfl⟩
  · split
    · exact ⟨_, rfl⟩
    · exact ⟨_, rfl⟩

theorem Steady.decideFrom (h : Steady resource paths threshold p) (costs bandwidths : List α)
    (m : Nat) (origin : Note α) :
    Steady resource paths threshold (p.decideFrom costs bandwidths m origin).2 := by
  obtain ⟨rng, hkept⟩ := decideFrom_snd costs bandwidths m origin p
  rw [hkept]
  exact ⟨h.resource_eq, h.threshold_eq, h.length_beliefs⟩

theorem Steady.decide (h : Steady resource paths threshold p) (m : Nat) :
    Steady resource paths threshold (p.decide m).2 := by
  unfold Constrained.decide
  split
  · exact h
  · apply Steady.decideFrom
    exact ⟨h.resource_eq, h.threshold_eq, h.length_beliefs⟩

theorem Steady.decideAveraged (h : Steady resource paths threshold p) (m : Nat) :
    Steady resource paths threshold (p.decideAveraged m).2 := by
  unfold Constrained.decideAveraged
  split
  · exact h
  · exact h.decideFrom _ _ _ _

theorem Steady.update (h : Steady resource paths threshold p) (selected : List Nat)
    (measurements : List (Metric α)) :
    Steady resource paths threshold (p.update selected measurements).2 := by
  unfold Constrained.update
  split
  · exact h
  · exact ⟨h.resource_eq, h.threshold_eq, (length_learn _ _ _ _ _).trans h.length_beliefs⟩

theorem Steady.updateDamped (h : Steady resource paths threshold p) (selected : List Nat)
    (measurements : List (Metric α)) :
    Steady resource paths threshold (p.updateDamped selected measurements).2 := by
  unfold Constrained.updateDamped
  split
  · exact h
  · refine ⟨h.resource_eq, h.threshold_eq, ?_⟩
    exact (length_forgetOthers _ _ _).trans ((length_learn _ _ _ _ _).trans h.length_beliefs)

/-- The states that a policy can reach by selecting and learning, also when some of these fail.
Nothing is known about the engine, which may even be another one each time. -/
inductive Reachable (resource : Resource) (paths : Nat) (threshold : α) : Constrained ρ α → Prop
  | new {p : Constrained ρ α} (engine : Lp.Engine α) (damping : α) (rng : ρ)
      (h : Constrained.new engine resource paths threshold damping rng = .ok p) :
      Reachable resource paths threshold p
  | replaceEngine {p : Constrained ρ α} (engine : Lp.Engine α)
      (h : Reachable resource paths threshold p) :
      Reachable resource paths threshold { p with engine := engine }
  | decide {p : Constrained ρ α} (m : Nat) (h : Reachable resource paths threshold p) :
      Reachable resource paths threshold (p.decide m).2
  | decideAveraged {p : Constrained ρ α} (m : Nat) (h : Reachable resource paths threshold p) :
      Reachable resource paths threshold (p.decideAveraged m).2
  | update {p : Constrained ρ α} (selected : List Nat) (measurements : List (Metric α))
      (h : Reachable resource paths threshold p) :
      Reachable resource paths threshold (p.update selected measurements).2
  | updateDamped {p : Constrained ρ α} (selected : List Nat) (measurements : List (Metric α))
      (h : Reachable resource paths threshold p) :
      Reachable resource paths threshold (p.updateDamped selected measurements).2
  | updateAveraged {p : Constrained ρ α} (selected : List Nat) (measurements : List (Metric α))
      (h : Reachable resource paths threshold p) :
      Reachable resource paths threshold (p.updateAveraged selected measurements).2

theorem Reachable.steady (h : Reachable resource paths threshold p) :
    Steady resource paths threshold p := by
  induction h with
  | new engine damping rng h => exact steady_new h
  | replaceEngine engine _ ih => exact ⟨ih.resource_eq, ih.threshold_eq, ih.length_beliefs⟩
  | decide m _ ih => exact ih.decide m
  | decideAveraged m _ ih => exact ih.decideAveraged m
  | update selected measurements _ ih => exact ih.update selected measurements
  | updateDamped selected measurements _ ih => exact ih.updateDamped selected measurements
  | updateAveraged selected measurements _ ih => exact ih.updateAveraged selected measurements

end PathSelection.Constrained
