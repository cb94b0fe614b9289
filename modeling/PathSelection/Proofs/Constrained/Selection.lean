import Mathlib.Data.Nat.Notation
import PathSelection.Proofs.Constrained.Reachable
import PathSelection.Proofs.Ranking
import PathSelection.Random.ChaCha

namespace PathSelection.Constrained

/-- An engine that answers with one value for each variable, if it answers at all. -/
def Shaped {α : Type} (engine : Lp.Engine α) : Prop :=
  ∀ problem solution, engine.solve problem = .ok solution →
    solution.point.length = problem.objective.length

section Program

variable {α : Type} [Scalar α]

theorem length_point {engine : Lp.Engine α} (hshaped : Shaped engine) {program : Lp.Program α}
    {solution : Lp.Solution α} (h : program.solve engine = .ok solution) :
    solution.point.length = program.costs.length := by
  obtain ⟨rows, -, hsolve⟩ := Lp.Program.solve_eq_ok.mp h
  exact hshaped _ _ hsolve

/-- Without the bound of the bandwidth program there is one share for each path. -/
theorem length_shares {engine : Lp.Engine α} (hshaped : Shaped engine) {resource : Resource}
    {costs : List α} {program : Lp.Program α} {solution : Lp.Solution α}
    (hcount : program.costs.length =
      if resource = .bandwidth then costs.length + 1 else costs.length)
    (h : program.solve engine = .ok solution) :
    (shares resource solution.point).length = costs.length := by
  have hpoint := length_point hshaped h
  rw [hcount] at hpoint
  cases resource with
  | latency => exact hpoint
  | loss => exact hpoint
  | bandwidth =>
    have hdrop : (solution.point.drop 1).length = costs.length := by
      rw [List.length_drop, hpoint, if_pos rfl, Nat.add_sub_cancel]
    exact hdrop

end Program

section Decision

variable {ρ α : Type} [Scalar α] [RandomSource ρ α]

/-- The ways in which paths are selected when an engine solves a program. -/
inductive Choice (engine : Lp.Engine α) (program : Lp.Program α) (resource : Resource)
    (costs : List α) (m : ℕ) (rng : ρ) (origin : Note α) : Selection α → Prop
  | failed {failure : Lp.Failure α} (hsolve : program.solve engine = .error failure) :
      Choice engine program resource costs m rng origin
        ⟨.constrained resource, bottomIndices Scalar.totalLe costs m, none,
          [origin, .programFallback failure]⟩
  | rejected {solution : Lp.Solution α} {e : Error α}
      (hsolve : program.solve engine = .ok solution)
      (hround : (dependentRounding m (shares resource solution.point) rng).1 = .error e) :
      Choice engine program resource costs m rng origin
        ⟨.constrained resource, bottomIndices Scalar.totalLe costs m, none,
          [origin, .roundingFallback e]⟩
  | rounded {solution : Lp.Solution α} {selected : List ℕ}
      (hsolve : program.solve engine = .ok solution)
      (hround : (dependentRounding m (shares resource solution.point) rng).1 = .ok selected) :
      Choice engine program resource costs m rng origin
        ⟨.constrained resource, selected, some (shares resource solution.point),
          [origin, .feasible solution.objective]⟩

theorem choice_decideFrom (p : Constrained ρ α) {costs bandwidths : List α} {m : ℕ}
    {program : Lp.Program α}
    (hprogram : Lp.resourceProgram p.resource costs bandwidths m p.threshold = .ok program)
    (origin : Note α) :
    ∃ s, (p.decideFrom costs bandwidths m origin).1 = .ok s ∧
      Choice p.engine program p.resource costs m p.rng origin s := by
  unfold decideFrom Constrained.solve
  rw [hprogram]
  dsimp only
  cases hsolve : program.solve p.engine with
  | error failure => exact ⟨_, rfl, .failed hsolve⟩
  | ok solution =>
    dsimp only
    cases hround : dependentRounding m (shares p.resource solution.point) p.rng with
    | mk result rng =>
      cases result with
      | error e => exact ⟨_, rfl, .rejected hsolve (congrArg Prod.fst hround)⟩
      | ok selected => exact ⟨_, rfl, .rounded hsolve (congrArg Prod.fst hround)⟩

/-- What is selected by the given costs when an engine solves a program. The bandwidth program has
one more variable, which is not a share. -/
structure Sound (engine : Lp.Engine α) (program : Lp.Program α) (resource : Resource)
    (costs : List α) (m : ℕ) (rng : ρ) (s : Selection α) : Prop where
  length_eq : s.paths.length = m
  nodup : s.paths.Nodup
  lt_length : ∀ i ∈ s.paths, i < costs.length
  usedFallback_iff : s.usedFallback = true ↔
    (∃ failure, program.solve engine = .error failure) ∨
      ∃ solution e, program.solve engine = .ok solution ∧
        (dependentRounding m (shares resource solution.point) rng).1 = .error e
  fallback : s.usedFallback = true →
    s.probabilities = none ∧ Leading Scalar.totalLe costs m s.paths
  rounded : s.usedFallback = false →
    ∃ solution, program.solve engine = .ok solution ∧
      (shares resource solution.point).length = costs.length ∧
      s.probabilities = some (shares resource solution.point) ∧
      (dependentRounding m (shares resource solution.point) rng).1 = .ok s.paths

section Sound

variable {engine : Lp.Engine α} {program : Lp.Program α} {resource : Resource} {costs : List α}
  {m : ℕ} {rng : ρ} {origin : Note α} {s : Selection α}

/-- Selections of the least cost are sound when the program or the rounding failed. -/
theorem sound_bottomIndices
    (hleading : Leading Scalar.totalLe costs m (bottomIndices Scalar.totalLe costs m))
    {notes : List (Note α)}
    (hnoted : (⟨.constrained resource, bottomIndices Scalar.totalLe costs m, none, notes⟩ :
      Selection α).usedFallback = true)
    (hfails : (∃ failure, program.solve engine = .error failure) ∨
      ∃ solution e, program.solve engine = .ok solution ∧
        (dependentRounding m (shares resource solution.point) rng).1 = .error e) :
    Sound engine program resource costs m rng
      ⟨.constrained resource, bottomIndices Scalar.totalLe costs m, none, notes⟩ where
  length_eq := hleading.length_eq
  nodup := firstIndices_nodup _ _ _
  lt_length := hleading.lt_length
  usedFallback_iff := iff_of_true hnoted hfails
  fallback _ := ⟨rfl, hleading⟩
  rounded hregular := absurd (hregular.symm.trans hnoted) Bool.false_ne_true

theorem Choice.sound (h : Choice engine program resource costs m rng origin s)
    (hleading : Leading Scalar.totalLe costs m (bottomIndices Scalar.totalLe costs m))
    (hshaped : Shaped engine)
    (hcount : program.costs.length =
      if resource = .bandwidth then costs.length + 1 else costs.length)
    (horigin : origin = .sampledPosterior ∨ origin = .averagedEstimates) :
    Sound engine program resource costs m rng s := by
  cases h with
  | @failed failure hsolve =>
    apply sound_bottomIndices hleading
    · rcases horigin with rfl | rfl <;> rfl
    · exact Or.inl ⟨failure, hsolve⟩
  | @rejected solution e hsolve hround =>
    apply sound_bottomIndices hleading
    · rcases horigin with rfl | rfl <;> rfl
    · exact Or.inr ⟨solution, e, hsolve, hround⟩
  | @rounded solution selected hsolve hround =>
    have hshares := length_shares hshaped hcount hsolve
    obtain ⟨hlength, hnodup, hlt⟩ := dependentRounding_eq_ok hround
    have hregular : (⟨.constrained resource, selected, some (shares resource solution.point),
        [origin, .feasible solution.objective]⟩ : Selection α).usedFallback = false := by
      rcases horigin with rfl | rfl <;> rfl
    refine ⟨hlength, hnodup, fun i hi => hshares ▸ hlt i hi, ?_, ?_, ?_⟩
    · -- Neither the program nor the rounding has failed.
      rw [hregular]
      refine iff_of_false Bool.false_ne_true ?_
      rintro (⟨failure, hfails⟩ | ⟨other, e, hother, hfails⟩)
      · exact absurd (hsolve.symm.trans hfails) (by simp)
      · obtain rfl := Except.ok.inj (hsolve.symm.trans hother)
        exact absurd (hround.symm.trans hfails) (by simp)
    · intro hnoted
      exact absurd (hregular.symm.trans hnoted) Bool.false_ne_true
    · intro _
      exact ⟨solution, hsolve, hshares, rfl, hround⟩

end Sound

/-- The answer to a decision for `m` plays by estimates for each path. -/
structure Answers (engine : Lp.Engine α) (resource : Resource) (threshold : α)
    (costs bandwidths : List α) (m : ℕ) (rng : ρ)
    (result : Except (Error α) (Selection α)) : Prop where
  tooManyPaths_iff : result = .error (.tooManyPaths m costs.length) ↔ costs.length < m
  sound : m ≤ costs.length → ∃ program s,
    Lp.resourceProgram resource costs bandwidths m threshold = .ok program ∧
      result = .ok s ∧ Sound engine program resource costs m rng s

theorem answers_of_lt {engine : Lp.Engine α} {resource : Resource} {threshold : α}
    {costs bandwidths : List α} {m : ℕ} (rng : ρ) (hm : costs.length < m) :
    Answers engine resource threshold costs bandwidths m rng
      (.error (.tooManyPaths m costs.length)) where
  tooManyPaths_iff := iff_of_true rfl hm
  sound hle := absurd hle (Nat.not_le.mpr hm)

theorem answers_decideFrom
    (htrans : ∀ a b c : α, Scalar.totalLe a b = true → Scalar.totalLe b c = true →
      Scalar.totalLe a c = true)
    (htotal : ∀ a b : α, (Scalar.totalLe a b || Scalar.totalLe b a) = true)
    (p : Constrained ρ α) (hshaped : Shaped p.engine) {costs bandwidths : List α} {m : ℕ}
    (hlen : costs.length = bandwidths.length) (hm : m ≤ costs.length) {origin : Note α}
    (horigin : origin = .sampledPosterior ∨ origin = .averagedEstimates) :
    Answers p.engine p.resource p.threshold costs bandwidths m p.rng
      (p.decideFrom costs bandwidths m origin).1 := by
  obtain ⟨program, hprogram, hcount⟩ := Lp.resourceProgram_eq_ok p.resource hlen m p.threshold
  obtain ⟨s, hs, hchoice⟩ := choice_decideFrom p hprogram origin
  have hleading : Leading Scalar.totalLe costs m (bottomIndices Scalar.totalLe costs m) :=
    leading_firstIndices htrans htotal hm
  refine ⟨?_, fun _ => ⟨program, s, hprogram, hs, hchoice.sound hleading hshaped hcount horigin⟩⟩
  rw [hs]
  exact iff_of_false (by simp) (Nat.not_lt.mpr hm)

end Decision

section Float

variable {ρ : Type} [RandomSource ρ Float]

/-- Whatever an engine answers, as long as it gives one value for each variable, a decision fails
only when more plays are wanted than there are paths. All other decisions are sound, by sampled
costs and by averaged ones. -/
theorem decide_answers {resource : Resource} {paths : ℕ} {threshold : Float}
    {p : Constrained ρ Float} (h : Reachable resource paths threshold p)
    (hshaped : Shaped p.engine) (m : ℕ) :
    let (draws, rng) := sampleAll p.beliefs p.rng
    draws.length = paths ∧ p.beliefs.length = paths ∧
      Answers p.engine resource threshold (draws.map (·.2)) (draws.map (·.1)) m rng
        (p.decide m).1 ∧
      Answers p.engine resource threshold (p.beliefs.map Belief.averageCost)
        (p.beliefs.map Belief.averageBandwidth) m p.rng (p.decideAveraged m).1 := by
  obtain ⟨rfl, rfl, rfl⟩ := h.steady
  have hdraws := length_sampleAll p.beliefs p.rng
  unfold Constrained.decide Constrained.decideAveraged checkPlays
  cases hsample : sampleAll p.beliefs p.rng with
  | mk draws rng =>
    rw [hsample] at hdraws
    dsimp only at hdraws ⊢
    have hcosts : (draws.map (·.2)).length = p.beliefs.length := by
      rw [List.length_map, hdraws]
    have haverages : (p.beliefs.map Belief.averageCost).length = p.beliefs.length :=
      List.length_map _
    refine ⟨hdraws, rfl, ?_⟩
    by_cases hm : p.beliefs.length < m
    · rw [if_pos hm]
      dsimp only
      constructor
      · rw [← hcosts]
        exact answers_of_lt rng (hcosts ▸ hm)
      · rw [← haverages]
        exact answers_of_lt p.rng (haverages ▸ hm)
    · have hle : m ≤ p.beliefs.length := Nat.not_lt.mp hm
      rw [if_neg hm]
      dsimp only
      constructor
      · exact answers_decideFrom floatTotalLe_trans floatTotalLe_total { p with rng := rng } hshaped
          (by simp) (hcosts ▸ hle) (Or.inl rfl)
      · exact answers_decideFrom floatTotalLe_trans floatTotalLe_total p hshaped (by simp)
          (haverages ▸ hle) (Or.inr rfl)

/-- An engine whose answers are no numbers. -/
def wildEngine : Lp.Engine Float :=
  ⟨fun problem => .ok ⟨List.replicate problem.objective.length (0 / 0), 0⟩⟩

theorem shaped_wildEngine : Shaped wildEngine := by
  intro problem solution hsolve
  obtain rfl := Except.ok.inj hsolve
  exact List.length_replicate

theorem shares_wildEngine {program : Lp.Program Float} {solution : Lp.Solution Float}
    (h : program.solve wildEngine = .ok solution) :
    shares .bandwidth solution.point = List.replicate (program.costs.length - 1) (0 / 0) := by
  obtain ⟨rows, -, hsolve⟩ := Lp.Program.solve_eq_ok.mp h
  obtain rfl := Except.ok.inj hsolve
  exact List.drop_replicate

/-- Two of three paths under the wild engine: they are the ones of the least sampled cost. -/
theorem decide_answers_wild :
    ∃ p : Constrained ChaCha Float,
      Reachable .bandwidth 3 0.5 p ∧ Shaped p.engine ∧ p.engine = wildEngine ∧
      ∃ s, (p.decide 2).1 = .ok s ∧ s.paths.length = 2 ∧ s.usedFallback = true ∧
        s.probabilities = none ∧
        Leading Scalar.totalLe ((sampleAll p.beliefs p.rng).1.map (·.2)) 2 s.paths := by
  let p : Constrained ChaCha Float :=
    ⟨wildEngine, .bandwidth, 0.5, 0.01, List.replicate 3 Belief.initial, ChaCha.ofSeed 1⟩
  have hnew : Constrained.new wildEngine .bandwidth 3 0.5 0.01 (ChaCha.ofSeed 1) = .ok p := by
    unfold Constrained.new
    rw [if_neg (by decide), if_pos (by decide)]
  have hreach : Reachable .bandwidth 3 0.5 p := .new wildEngine 0.01 (ChaCha.ofSeed 1) hnew
  have hanswers := decide_answers hreach shaped_wildEngine 2
  refine ⟨p, hreach, shaped_wildEngine, rfl, ?_⟩
  cases hsample : sampleAll p.beliefs p.rng with
  | mk draws rng =>
    rw [hsample] at hanswers
    obtain ⟨hdraws, -, hanswer, -⟩ := hanswers
    have hcosts : (draws.map (·.2)).length = 3 := (List.length_map _).trans hdraws
    have hbandwidths : (draws.map (·.1)).length = 3 := (List.length_map _).trans hdraws
    obtain ⟨program, s, hprogram, hs, hsound⟩ := hanswer.sound (by rw [hcosts]; decide)
    obtain ⟨program', hprogram', hcount⟩ := Lp.resourceProgram_eq_ok .bandwidth
      (hcosts.trans hbandwidths.symm) 2 (0.5 : Float)
    obtain rfl := Except.ok.inj (hprogram'.symm.trans hprogram)
    have hfallback : s.usedFallback = true := by
      apply hsound.usedFallback_iff.mpr
      cases hsolve : program'.solve wildEngine with
      | error failure => exact Or.inl ⟨failure, rfl⟩
      | ok solution =>
        -- The sum of the shares is no number, so that the rounding rejects them.
        have hrejected : Rounding.sumFits 2 (List.replicate 3 (0 / 0 : Float)) = false := by decide
        have hshares := shares_wildEngine hsolve
        rw [hcount, if_pos rfl, hcosts, Nat.add_sub_cancel] at hshares
        refine Or.inr ⟨solution, .probabilitySum 2 (Scalar.sum (List.replicate 3 (0 / 0))), rfl, ?_⟩
        unfold dependentRounding
        rw [hshares, hrejected]
        rfl
    exact ⟨s, hs, hsound.length_eq, hfallback, hsound.fallback hfallback⟩

end Float

end PathSelection.Constrained
