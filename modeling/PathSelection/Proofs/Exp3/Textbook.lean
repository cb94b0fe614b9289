import Mathlib.Data.Nat.Cast.Defs
import Mathlib.Data.Finset.Basic
import PathSelection.Proofs.Exp3.Growth
import PathSelection.Proofs.Exp3.Probabilities
import PathSelection.Proofs.Exp3.Scaling
import PathSelection.Random.ChaCha
import PathSelection.Proofs.Random.Sources
/-!
EXP3.M against its textbook form, which multiplies weights without a bound.
-/
namespace PathSelection.Exp3

variable {ρ : Type}

/-- A policy at play: its state, the paths that its last decision capped, and whether it has learned
since that decision. -/
structure Play (ρ : Type) where
  policy : Exp3 ρ ℝ
  capped : Finset ℕ
  learned : Bool

/-- A call of a policy. -/
inductive Call where
  | decide (m : ℕ)
  | update (selected : List ℕ) (measurements : List (Metric ℝ))

/-- The paths whose weight reaches the cap. -/
noncomputable def cappedPaths (p : Exp3 ρ ℝ) : Finset ℕ :=
  (Finset.range p.weights.length).filter fun i => ∃ c, p.cap = some c ∧ c ≤ p.weights.getD i 0

namespace Play

/-- A policy that has not been called yet. -/
def fresh (p : Exp3 ρ ℝ) : Play ρ := ⟨p, ∅, false⟩

/-- A decision, with the selected paths. Without plays no probabilities are set and nothing is
capped anew. -/
noncomputable def decide [DrawSource ρ ℝ] (m : ℕ) (play : Play ρ) :
    Except (Error ℝ) (List ℕ) × Play ρ :=
  let (answer, policy) := play.policy.decide m
  (answer.map Selection.paths,
    if 1 ≤ m ∧ m ≤ policy.weights.length then ⟨policy, cappedPaths policy, false⟩
    else { play with policy := policy })

/-- An update of the policy itself. -/
noncomputable def update (selected : List ℕ) (measurements : List (Metric ℝ)) (play : Play ρ) :
    Play ρ :=
  match play.policy.update selected measurements with
  | (.error _, _) => play
  | (.ok (), policy) => { play with policy := policy, learned := true }

/-- The factor of the textbook for one measurement. -/
noncomputable def factor (play : Play ρ) (plays path : ℕ) (bandwidth : ℝ) : ℝ :=
  Real.exp (plays * play.policy.gamma * bandwidth /
    (play.policy.probabilities.getD path 0 * play.policy.weights.length))

/-- The weights after one measurement in the textbook: that of a path which the last decision did
not cap is multiplied. -/
noncomputable def multiply (play : Play ρ) (plays : ℕ) (weights : List ℝ)
    (entry : ℕ × Metric ℝ) : List ℝ :=
  if entry.1 ∈ play.capped then weights
  else weights.modify entry.1 (· * play.factor plays entry.1 entry.2.bandwidth)

/-- An update as the textbook has it. Nothing is rescaled or raised. -/
noncomputable def reward (selected : List ℕ) (measurements : List (Metric ℝ)) (play : Play ρ) :
    Play ρ :=
  match (checkFeedback play.policy.weights.length selected measurements :
      Except (Error ℝ) Unit) with
  | .error _ => play
  | .ok () =>
    let weights := (selected.zip measurements).foldl (play.multiply selected.length)
      play.policy.weights
    { play with policy := { play.policy with weights := weights }, learned := true }

end Play

/-- What a run shows after each call: the answer of a decision, and the policy at play. -/
noncomputable def trace [DrawSource ρ ℝ]
    (learn : List ℕ → List (Metric ℝ) → Play ρ → Play ρ) :
    List Call → Play ρ → List (Option (Except (Error ℝ) (List ℕ)) × Play ρ)
  | [], _ => []
  | .decide m :: calls, play =>
    (some (play.decide m).1, (play.decide m).2) :: trace learn calls (play.decide m).2
  | .update selected measurements :: calls, play =>
    (none, learn selected measurements play) ::
      trace learn calls (learn selected measurements play)

/-- Whether all updates of a run of the policy satisfy a condition on the state that they meet. -/
def AtUpdates [DrawSource ρ ℝ]
    (condition : List ℕ → List (Metric ℝ) → Play ρ → Prop) : List Call → Play ρ → Prop
  | [], _ => True
  | .decide m :: calls, play => AtUpdates condition calls (play.decide m).2
  | .update selected measurements :: calls, play =>
    condition selected measurements play ∧
      AtUpdates condition calls (play.update selected measurements)

/-- An update that names different paths and raises no weight. -/
def Play.Allows (selected : List ℕ) (measurements : List (Metric ℝ)) (play : Play ρ) : Prop :=
  selected.Nodup ∧
    ((checkFeedback play.policy.weights.length selected measurements : Except (Error ℝ) Unit) =
      .ok () → Unraised (play.policy.growths selected measurements) play.policy.weights)

/-- An update that is the first one after a decision, or for which no selected path has crossed the
cap since then. -/
def Play.Timely (selected : List ℕ) (_ : List (Metric ℝ)) (play : Play ρ) : Prop :=
  play.learned = false ∨ ∀ path ∈ selected, path ∈ play.capped ↔ path ∈ cappedPaths play.policy

/-- What two runs have in common after a call. -/
structure Agrees (x y : Option (Except (Error ℝ) (List ℕ)) × Play ρ) : Prop where
  answer_eq : x.1 = y.1
  probabilities_eq : x.2.policy.probabilities = y.2.policy.probabilities
  capped_eq : x.2.capped = y.2.capped
  weights_eq : ∃ factor > 0, y.2.policy.weights = rescale factor x.2.policy.weights

section Textbook

theorem mem_cappedPaths {p : Exp3 ρ ℝ} {i : ℕ} :
    i ∈ cappedPaths p ↔ i < p.weights.length ∧ ∃ c, p.cap = some c ∧ c ≤ p.weights.getD i 0 := by
  unfold cappedPaths
  rw [Finset.mem_filter, Finset.mem_range]

theorem cappedPaths_of_none {p : Exp3 ρ ℝ} (h : p.cap = none) : cappedPaths p = ∅ := by
  apply Finset.eq_empty_of_forall_notMem
  intro i hi
  obtain ⟨-, c, hc, -⟩ := mem_cappedPaths.mp hi
  rw [h] at hc
  exact Option.some_ne_none c hc.symm

theorem SameUpTo.cappedPaths_eq {factor : ℝ} {p q : Exp3 ρ ℝ} (hfactor : 0 < factor)
    (h : SameUpTo factor p q) (hcap : q.cap = p.cap.map (factor * ·)) :
    cappedPaths q = cappedPaths p := by
  ext i
  rw [mem_cappedPaths, mem_cappedPaths, h.length_eq, h.weights_eq, getD_rescale, hcap]
  cases p.cap with
  | none => simp
  | some c => simp [mul_le_mul_iff_right₀ hfactor]

/-- What holds of a policy at play after every call: its probabilities are positive, and until it
learns after a decision with a cap the paths whose weight reaches the cap are those that the
decision capped. -/
structure Coherent (paths : ℕ) (gamma : ℝ) (play : Play ρ) : Prop where
  steady : Steady paths gamma play.policy
  length_probabilities : play.policy.probabilities.length = paths
  probabilities_pos : ∀ x ∈ play.policy.probabilities, 0 < x
  capped_lt : ∀ i ∈ play.capped, i < paths
  capped_eq : play.learned = false → play.capped = cappedPaths play.policy

variable {paths m : ℕ} {gamma : ℝ} {play p q : Play ρ}

theorem coherent_fresh {policy : Exp3 ρ ℝ} {rng : ρ} (h : Exp3.new paths gamma rng = .ok policy) :
    Coherent paths gamma (Play.fresh policy) := by
  have hsteady := steady_new h
  obtain rfl : policy = start paths gamma rng := by
    rw [new_real hsteady.gamma_pos hsteady.gamma_lt_one] at h
    exact (Except.ok.inj h).symm
  refine ⟨hsteady, List.length_replicate, fun x hx => ?_, by simp [Play.fresh],
    fun _ => (cappedPaths_of_none rfl).symm⟩
  rw [List.eq_of_mem_replicate hx]
  exact one_pos

/-- The probabilities after a decision are those of the capped weights, ones, or the old ones. -/
theorem probabilities_decide [DrawSource ρ ℝ] {policy : Exp3 ρ ℝ}
    (h : Steady paths gamma policy) (hlen : policy.probabilities.length = paths)
    (hpos : ∀ x ∈ policy.probabilities, 0 < x) (m : ℕ) :
    (policy.decide m).2.probabilities.length = paths ∧
      ∀ x ∈ (policy.decide m).2.probabilities, 0 < x := by
  obtain ⟨rfl, h0, h1, rfl, hweights⟩ := h
  have hdecision := decision_decide m policy
  generalize policy.decide m = result at hdecision ⊢
  cases hdecision with
  | tooMany | none | uncapped => exact ⟨hlen, hpos⟩
  | all hall =>
    refine ⟨List.length_replicate.trans hall, fun x hx => ?_⟩
    rw [List.eq_of_mem_replicate hx]
    exact one_pos
  | rounded hone hlt hprepare =>
    have hsome : 0 < policy.weights.length := Nat.zero_lt_of_lt hlt
    obtain ⟨cap, hcap, hprepare'⟩ := prepare_eq policy h0 h1 hone hlt hweights
    obtain rfl := Except.ok.inj (hprepare'.symm.trans hprepare)
    refine ⟨length_chances, fun x hx => ?_⟩
    have hm : (0 : ℝ) < m := by exact_mod_cast hone
    have hpaths : (0 : ℝ) < policy.weights.length := by exact_mod_cast hsome
    have hlow := (hcap.chances_mem h1 hone hsome hweights x hx).1
    exact (div_pos (mul_pos hm h0) hpaths).trans_le hlow

theorem Coherent.decide [DrawSource ρ ℝ] (h : Coherent paths gamma play) (m : ℕ) :
    Coherent paths gamma (play.decide m).2 := by
  have hsteady := h.steady.decide m
  have hprobabilities := probabilities_decide h.steady h.length_probabilities
    h.probabilities_pos m
  unfold Play.decide
  dsimp only
  split
  · refine ⟨hsteady, hprobabilities.1, hprobabilities.2, fun i hi => ?_, fun _ => rfl⟩
    rw [← hsteady.length_weights]
    exact (mem_cappedPaths.mp hi).1
  · next hskip =>
    refine ⟨hsteady, hprobabilities.1, hprobabilities.2, h.capped_lt, fun hknown => ?_⟩
    rw [hsteady.length_weights, ← h.steady.length_weights] at hskip
    have hdecision := decision_decide m play.policy
    generalize play.policy.decide m = result at hdecision hknown ⊢
    cases hdecision with
    | tooMany | none | uncapped => exact h.capped_eq hknown
    | rounded => omega
    | all hall =>
      -- Only without any path does this case leave out the capped paths.
      rw [cappedPaths_of_none rfl]
      apply Finset.eq_empty_of_forall_notMem
      intro i hi
      have hlt := h.capped_lt i hi
      have hlen := h.steady.length_weights
      omega

theorem Coherent.update (h : Coherent paths gamma play) (selected : List ℕ)
    (measurements : List (Metric ℝ)) :
    Coherent paths gamma (play.update selected measurements) := by
  have hsteady := h.steady.update selected measurements
  unfold Play.update
  unfold Exp3.update at hsteady ⊢
  split
  · exact h
  · next hupdate =>
    split at hupdate
    · simp at hupdate
    · obtain ⟨-, rfl⟩ := Prod.mk.inj hupdate
      next hcheck =>
      rw [hcheck] at hsteady
      refine ⟨hsteady, h.length_probabilities, h.probabilities_pos, h.capped_lt, ?_⟩
      -- The policy has learned.
      intro hknown
      exact absurd hknown (by simp)

theorem Coherent.probability_pos (h : Coherent paths gamma play) {path : ℕ} (hpath : path < paths) :
    0 < play.policy.probabilities.getD path 0 := by
  have hlt : path < play.policy.probabilities.length := h.length_probabilities.symm ▸ hpath
  exact forall_mem_iff_getD.mp h.probabilities_pos path hlt

/-- A path learns when its weight is below the cap. -/
theorem growth_eq_ite {policy : Exp3 ρ ℝ} {path : ℕ} (hpath : path < policy.weights.length)
    (hprobability : 0 < policy.probabilities.getD path 0) (plays : ℕ) (bandwidth : ℝ) :
    policy.growth plays path bandwidth =
      if path ∈ cappedPaths policy then none
      else some (plays * policy.gamma * bandwidth /
        (policy.probabilities.getD path 0 * policy.weights.length)) := by
  have hvalue : (plays : ℝ) * policy.gamma * (bandwidth / policy.probabilities.getD path 0) /
      policy.weights.length = plays * policy.gamma * bandwidth /
        (policy.probabilities.getD path 0 * policy.weights.length) := by
    rw [mul_div_assoc', div_div]
  have hfinite : Scalar.isFinite bandwidth = true := rfl
  unfold growth
  simp only [Scalar.zero_real, decide_eq_true hprobability, Bool.and_true, hvalue, hfinite]
  simp only [mem_cappedPaths, hpath, true_and]
  cases hcap : policy.cap with
  | none => rw [if_pos rfl, if_neg (by simp)]
  | some c =>
    by_cases hle : c ≤ policy.weights.getD path 0
    · rw [if_neg (by simpa using hle), if_pos ⟨c, rfl, hle⟩]
    · have hfree : ¬ ∃ c', some c = some c' ∧ c' ≤ policy.weights.getD path 0 := by
        rintro ⟨c', hc', hle'⟩
        exact hle (Option.some.inj hc' ▸ hle')
      rw [if_pos (decide_eq_true (not_le.mp hle)), if_neg hfree]

/-- Two policies at play of which one has its weights times a factor. -/
structure Mirrors (p q : Play ρ) : Prop where
  capped_eq : q.capped = p.capped
  same : ∃ factor > 0, SameUpTo factor p.policy q.policy

theorem Mirrors.decide [DrawSource ρ ℝ] (h : Mirrors p q) (hp : Coherent paths gamma p) (m : ℕ) :
    (p.decide m).1 = (q.decide m).1 ∧ Mirrors (p.decide m).2 (q.decide m).2 := by
  obtain ⟨hcapped, factor, hfactor, hsame⟩ := h
  obtain ⟨hgamma, h0, h1, hlen, hpos⟩ := hp.steady
  have hprepare : 1 ≤ m → m < p.policy.weights.length → ∃ p', p.policy.prepare m = .ok p' := by
    intro hone hlt
    obtain ⟨cap, -, hp'⟩ := prepare_eq p.policy (hgamma ▸ h0) (hgamma ▸ h1) hone hlt hpos
    exact ⟨_, hp'⟩
  obtain ⟨hanswer, hnext, hcap⟩ := hsame.decide hfactor hprepare
  have hkept := (kept_of_decide p.policy m).2
  unfold Play.decide
  dsimp only
  rw [hnext.length_eq]
  refine ⟨hanswer, ?_⟩
  split
  · next hset =>
    refine ⟨?_, factor, hfactor, hnext⟩
    exact hnext.cappedPaths_eq hfactor (hcap hset.1 (hkept ▸ hset.2))
  · exact ⟨hcapped, factor, hfactor, hnext⟩

/-- The textbook multiplies by the exponent by which the policy grows, if it does. -/
theorem multiply_eq_elim (hcapped : q.capped = p.capped) {factor : ℝ}
    (hsame : SameUpTo factor p.policy q.policy) {entry : ℕ × Metric ℝ}
    (hpath : entry.1 < p.policy.weights.length)
    (hprobability : 0 < p.policy.probabilities.getD entry.1 0)
    (hknown : entry.1 ∈ p.capped ↔ entry.1 ∈ cappedPaths p.policy) (plays : ℕ)
    (weights : List ℝ) :
    q.multiply plays weights entry =
      (p.policy.growth plays entry.1 entry.2.bandwidth).elim weights fun e =>
        weights.modify entry.1 (· * Real.exp e) := by
  unfold Play.multiply Play.factor
  rw [hcapped, hsame.gamma_eq, hsame.probabilities_eq, hsame.length_eq,
    growth_eq_ite hpath hprobability]
  by_cases hin : entry.1 ∈ p.capped
  · rw [if_pos hin, if_pos (hknown.mp hin), Option.elim_none]
  · rw [if_neg hin, if_neg (mt hknown.mpr hin), Option.elim_some]

/-- Multiplying path by path is growing by the exponents that the policy collects. -/
theorem foldl_multiply_eq (play : Play ρ) {policy : Exp3 ρ ℝ} {selected : List ℕ}
    {measurements : List (Metric ℝ)} (hnodup : selected.Nodup)
    (hequal : selected.length = measurements.length) {weights : List ℝ}
    (hlen : weights.length = policy.weights.length)
    (hmultiply : ∀ (weights : List ℝ), ∀ entry ∈ selected.zip measurements,
      play.multiply selected.length weights entry =
        (policy.growth selected.length entry.1 entry.2.bandwidth).elim weights fun e =>
          weights.modify entry.1 (· * Real.exp e)) :
    (selected.zip measurements).foldl (play.multiply selected.length) weights =
      List.zipWith (fun w e => w * Real.exp e) weights (policy.growths selected measurements) := by
  have hfirsts : (selected.zip measurements).map Prod.fst = selected :=
    List.map_fst_zip hequal.le
  have hzero : ∀ entry ∈ selected.zip measurements,
      (List.replicate weights.length (0 : ℝ)).getD entry.1 0 = 0 :=
    fun entry _ => List.getElem?_getD_replicate_default_eq _ _ _
  have hzip := foldl_modify_eq_zipWith
    (fun entry => policy.growth selected.length entry.1 entry.2.bandwidth)
    (selected.zip measurements) (hfirsts.symm ▸ hnodup) weights hzero
  rw [zipWith_exp_zero, hlen] at hzip
  rw [List.foldl_ext _ _ _ hmultiply, hzip]
  unfold growths
  rw [Scalar.zero_real]
  apply congrArg
  apply List.foldl_ext
  rintro exponents ⟨path, metric⟩ -
  dsimp only
  cases policy.growth selected.length path metric.bandwidth <;> rfl

/-- An update keeps the weights of the policy and of the textbook in proportion. -/
theorem Mirrors.update (h : Mirrors p q) (hp : Coherent paths gamma p) {selected : List ℕ}
    {measurements : List (Metric ℝ)} (hallows : p.Allows selected measurements)
    (htimely : p.Timely selected measurements) :
    Mirrors (p.update selected measurements) (q.reward selected measurements) := by
  obtain ⟨hcapped, factor, hfactor, hsame⟩ := h
  obtain ⟨hnodup, hunraised⟩ := hallows
  have hknown : ∀ path ∈ selected, path ∈ p.capped ↔ path ∈ cappedPaths p.policy := by
    intro path hpath
    rcases htimely with hfirst | hcrossed
    · rw [hp.capped_eq hfirst]
    · exact hcrossed path hpath
  unfold Play.update Play.reward Exp3.update
  rw [hsame.length_eq]
  cases hcheck : (checkFeedback p.policy.weights.length selected measurements :
      Except (Error ℝ) Unit) with
  | error e => exact ⟨hcapped, factor, hfactor, hsame⟩
  | ok =>
    obtain ⟨hequal, hbelow⟩ := checkFeedback_eq_ok.mp hcheck
    have hfold := foldl_multiply_eq q hnodup hequal hsame.length_eq fun weights entry hentry => by
      have hmem : entry.1 ∈ selected := (List.of_mem_zip hentry).1
      exact multiply_eq_elim hcapped hsame (hbelow _ hmem)
        (hp.probability_pos (hp.steady.length_weights ▸ hbelow _ hmem)) (hknown _ hmem)
        selected.length weights
    have hgrow := grow_eq_zipWith (length_growths p.policy selected measurements)
      hp.steady.weights_pos (hunraised hcheck)
    -- The policy divides by what it rescales by, the textbook does not.
    generalize hdivisor : Real.exp ((rescaling? (grownLogs
      (p.policy.growths selected measurements) p.policy.weights)).getD 0) = divisor at hgrow
    have hpos : 0 < divisor := hdivisor ▸ Real.exp_pos _
    refine ⟨hcapped, factor * divisor, mul_pos hfactor hpos, ⟨hsame.gamma_eq, ?_,
      hsame.probabilities_eq, hsame.rng_eq⟩⟩
    dsimp only
    rw [hfold, hgrow, hsame.weights_eq]
    unfold rescale
    apply List.ext_getElem
    · simp
    intro i hi hi'
    simp only [List.getElem_zipWith, List.getElem_map]
    field_simp

theorem Mirrors.agrees (h : Mirrors p q) {answer answer' : Option (Except (Error ℝ) (List ℕ))}
    (hanswer : answer = answer') : Agrees (answer, p) (answer', q) := by
  obtain ⟨hcapped, factor, hfactor, hsame⟩ := h
  exact ⟨hanswer, hsame.probabilities_eq.symm, hcapped.symm, factor, hfactor, hsame.weights_eq⟩

theorem trace_agrees [DrawSource ρ ℝ] (calls : List Call) (hp : Coherent paths gamma p)
    (h : Mirrors p q) (hallows : AtUpdates Play.Allows calls p)
    (htimely : AtUpdates Play.Timely calls p) :
    List.Forall₂ Agrees (trace Play.update calls p) (trace Play.reward calls q) := by
  -- By induction on the calls, each of which keeps the policy coherent and both in proportion.
  induction calls generalizing p q with
  | nil => exact List.Forall₂.nil
  | cons call calls ih =>
    cases call with
    | decide m =>
      obtain ⟨hanswer, hnext⟩ := h.decide hp m
      exact List.Forall₂.cons (hnext.agrees (congrArg some hanswer))
        (ih (hp.decide m) hnext hallows htimely)
    | update selected measurements =>
      have hnext := h.update hp hallows.1 htimely.1
      exact List.Forall₂.cons (hnext.agrees rfl)
        (ih (hp.update selected measurements) hnext hallows.2 htimely.2)

end Textbook

section Crossing

theorem checkFeedback_singleton {paths path : ℕ} (hpath : path < paths) (metric : Metric ℝ) :
    (checkFeedback paths [path] [metric] : Except (Error ℝ) Unit) = .ok () := by
  apply checkFeedback_eq_ok.mpr
  exact ⟨rfl, fun i hi => List.mem_singleton.mp hi ▸ hpath⟩

theorem Play.update_singleton {play : Play ρ} {path : ℕ} (hpath : path < play.policy.weights.length)
    (metric : Metric ℝ) :
    play.update [path] [metric] =
      { play with
        policy := { play.policy with
          weights := grow ((List.replicate play.policy.weights.length 0).set path
            ((play.policy.growth 1 path metric.bandwidth).getD 0)) play.policy.weights }
        learned := true } := by
  unfold Play.update Exp3.update
  rw [checkFeedback_singleton hpath, growths_singleton]

/-- Two plays of three paths of which the first one is ten times as heavy as the others: the weights
are capped at four. -/
theorem prepare_heavy (probabilities : List ℝ) (cap : Option ℝ) (rng : ρ) :
    prepare 2 (⟨1 / 2, [10, 1, 1], probabilities, cap, rng⟩ : Exp3 ρ ℝ) =
      .ok ⟨1 / 2, [10, 1, 1], [1, 1 / 2, 1 / 2], some 4, rng⟩ := by
  have hlimit : shareLimit (1 / 2 : ℝ) 3 2 = 2 / 3 := by
    rw [shareLimit_real]
    norm_num
  obtain ⟨found, hfound, hprepare⟩ := prepare_eq (m := 2)
    (⟨1 / 2, [10, 1, 1], probabilities, cap, rng⟩ : Exp3 ρ ℝ) (by norm_num) (by norm_num)
    (by decide) (show 2 < 3 by decide) (by norm_num)
  simp only [List.length_cons, List.length_nil] at hfound
  rw [hlimit] at hfound
  have hfour : found = some 4 := by
    cases hfound with
    | free h =>
      have hunder := h 10 List.mem_cons_self
      norm_num at hunder
    | @capped c hover h =>
      -- Fewer than two weights reach the cap, so that it lies between one and ten.
      have hone : 1 < c := by
        by_contra hle
        have hcount := h.countP_lt
        have hle' : c ≤ 1 := not_lt.mp hle
        have hten : c ≤ 10 := hle'.trans (by norm_num)
        simp [hle', hten] at hcount
      have hten : c ≤ 10 := by
        obtain ⟨w, hw, hle⟩ := h.exists_le
        have hw' : w ≤ 10 := by
          simp only [List.mem_cons, List.not_mem_nil, or_false] at hw
          rcases hw with rfl | rfl | rfl <;> norm_num
        exact hle.trans hw'
      have hfixed := h.fixed
      simp only [List.map_cons, List.map_nil, List.sum_cons, List.sum_nil, min_eq_right hten,
        min_eq_left hone.le] at hfixed
      congr 1
      linarith
  rw [hprepare, hfour]
  have hchances : chances (1 / 2) 2 (some 4) [10, 1, 1] = [1, 1 / 2, 1 / 2] := by
    simp [chances, mixture, counted]
    norm_num
  rw [hchances]

theorem Play.reward_singleton {play : Play ρ} {path : ℕ} (hpath : path < play.policy.weights.length)
    (metric : Metric ℝ) :
    play.reward [path] [metric] =
      { play with
        policy := { play.policy with
          weights := play.multiply 1 play.policy.weights (path, metric) }
        learned := true } := by
  unfold Play.reward
  rw [checkFeedback_singleton hpath]
  rfl

/-- Three paths with the given weights at play, with the probabilities and the cap of a decision in
which the first one was ten times as heavy as the others. -/
noncomputable def heavy (weights : List ℝ) (learned : Bool) (rng : ρ) : Play ρ :=
  ⟨⟨1 / 2, weights, [1, 1 / 2, 1 / 2], some 4, rng⟩, {0}, learned⟩

/-- The feedback that makes the weight of a path with the given probability ten times as heavy. -/
noncomputable def tenfold (probability : ℝ) : Metric ℝ := ⟨0, 6 * probability * Real.log 10, 0⟩

theorem exponent_tenfold {probability : ℝ} (hpos : 0 < probability) :
    (1 : ℕ) * (1 / 2) * (tenfold probability).bandwidth / (probability * (3 : ℕ)) =
      Real.log 10 := by
  unfold tenfold
  push_cast
  field_simp
  norm_num

theorem cappedPaths_heavy {policy : Exp3 ρ ℝ} {w : ℝ} (hweights : policy.weights = [10, w, 1])
    (hcap : policy.cap = some 4) (hw : w < 4) : cappedPaths policy = {0} := by
  ext i
  rw [mem_cappedPaths, hweights, hcap, Finset.mem_singleton]
  constructor
  · rintro ⟨hi, c, hc, hle⟩
    obtain rfl := Option.some.inj hc
    match i, hi with
    | 0, _ => rfl
    | 1, _ => exact absurd hle (not_le.mpr hw)
    | 2, _ => exact absurd hle (by norm_num)
  · rintro rfl
    exact ⟨Nat.zero_lt_succ _, 4, rfl, by norm_num⟩

theorem decide_heavy [DrawSource ρ ℝ] (rng : ρ) :
    ∃ rng', ((⟨⟨1 / 2, [10, 1, 1], [1, 1, 1], none, rng⟩, ∅, true⟩ : Play ρ).decide 2).2 =
      heavy [10, 1, 1] false rng' := by
  have hdecision := decision_decide 2 (⟨1 / 2, [10, 1, 1], [1, 1, 1], none, rng⟩ : Exp3 ρ ℝ)
  unfold Play.decide
  dsimp only
  generalize Exp3.decide 2 (⟨1 / 2, [10, 1, 1], [1, 1, 1], none, rng⟩ : Exp3 ρ ℝ) = result
    at hdecision ⊢
  cases hdecision with
  | tooMany h => exact absurd h (by simp)
  | all h => exact absurd h (by simp)
  | none h => exact absurd h (by simp)
  | uncapped h1 hlt hprepare => exact absurd (hprepare.symm.trans (prepare_heavy _ _ _)) (by simp)
  | rounded h1 hlt hprepare =>
    obtain rfl := Except.ok.inj (hprepare.symm.trans (prepare_heavy _ _ _))
    refine ⟨(dependentRounding 2 [1, 1 / 2, 1 / 2] rng).2, ?_⟩
    rw [if_pos (by simp), cappedPaths_heavy (w := 1) rfl rfl (by norm_num)]
    rfl

/-- A path that is not capped grows tenfold, in the policy and in the textbook. -/
theorem update_tenfold (play : Play ρ) (path : ℕ) {probability : ℝ} (hpath : path < 3)
    (hlen : play.policy.weights.length = 3) (hgamma : play.policy.gamma = 1 / 2)
    (hprobability : play.policy.probabilities.getD path 0 = probability) (hpos : 0 < probability)
    (hone : ∀ w ∈ play.policy.weights, 1 ≤ w) (hten : ∀ w ∈ play.policy.weights, w ≤ 10)
    (hfree : path ∉ cappedPaths play.policy) (hcapped : path ∉ play.capped) :
    play.Allows [path] [tenfold probability] ∧
      play.update [path] [tenfold probability] =
        { play with
          policy := { play.policy with weights := play.policy.weights.modify path (· * 10) }
          learned := true } ∧
      play.reward [path] [tenfold probability] = play.update [path] [tenfold probability] := by
  have hexponent := exponent_tenfold hpos
  have hgrowth : play.policy.growth 1 path (tenfold probability).bandwidth =
      some (Real.log 10) := by
    rw [growth_eq_ite (hlen.symm ▸ hpath) (hprobability.symm ▸ hpos), if_neg hfree, hlen, hgamma,
      hprobability, hexponent]
  have hten' : Real.exp (Real.log 10) = 10 := Real.exp_log (by norm_num)
  have hmultiply : play.multiply 1 play.policy.weights (path, tenfold probability) =
      play.policy.weights.modify path (· * 10) := by
    unfold Play.multiply Play.factor
    rw [if_neg hcapped, hlen, hgamma, hprobability, hexponent, hten']
  obtain ⟨hunraised, hgrow⟩ := grow_set path hone hten (Real.log_nonneg (by norm_num)) hten'.le
  have hupdate := Play.update_singleton (hlen.symm ▸ hpath) (tenfold probability)
  have hreward := Play.reward_singleton (hlen.symm ▸ hpath) (tenfold probability)
  rw [hgrowth, Option.getD_some, hgrow, hten'] at hupdate
  rw [hmultiply, ← hupdate] at hreward
  refine ⟨⟨List.nodup_singleton path, fun _ => ?_⟩, hupdate, hreward⟩
  rw [growths_singleton, hgrowth]
  exact hunraised

theorem update_start_heavy (rng : ρ) :
    (Play.fresh (start 3 (1 / 2) rng)).Allows [0] [tenfold 1] ∧
      (Play.fresh (start 3 (1 / 2) rng)).update [0] [tenfold 1] =
        ⟨⟨1 / 2, [10, 1, 1], [1, 1, 1], none, rng⟩, ∅, true⟩ ∧
      (Play.fresh (start 3 (1 / 2) rng)).reward [0] [tenfold 1] =
        (Play.fresh (start 3 (1 / 2) rng)).update [0] [tenfold 1] := by
  have hones : ∀ w ∈ (Play.fresh (start 3 (1 / 2) rng)).policy.weights, w = 1 :=
    fun w hw => List.eq_of_mem_replicate hw
  obtain ⟨hallows, hupdate, hreward⟩ := update_tenfold (Play.fresh (start 3 (1 / 2) rng)) 0
    (by norm_num) rfl rfl rfl one_pos (fun w hw => (hones w hw).ge)
    (fun w hw => (hones w hw).trans_le (by norm_num)) (by rw [cappedPaths_of_none rfl]; simp)
    (by simp [Play.fresh])
  refine ⟨hallows, hupdate.trans ?_, hreward⟩
  simp [Play.fresh, start, List.replicate, List.modify]

theorem update_heavy (rng : ρ) :
    (heavy [10, 1, 1] false rng).Allows [1] [tenfold (1 / 2)] ∧
      (heavy [10, 1, 1] false rng).update [1] [tenfold (1 / 2)] = heavy [10, 10, 1] true rng ∧
      (heavy [10, 1, 1] false rng).reward [1] [tenfold (1 / 2)] =
        (heavy [10, 1, 1] false rng).update [1] [tenfold (1 / 2)] := by
  obtain ⟨hallows, hupdate, hreward⟩ := update_tenfold (heavy [10, 1, 1] false rng) 1
    (by norm_num) rfl rfl rfl one_half_pos (by simp [heavy]) (by simp [heavy])
    (by rw [cappedPaths_heavy (w := 1) rfl rfl (by norm_num)]; simp) (by simp [heavy])
  refine ⟨hallows, hupdate.trans ?_, hreward⟩
  simp [heavy, List.modify]

/-- A path that has crossed the cap does not grow again in the policy, but it does in the
textbook. -/
theorem update_heavy_again (rng : ρ) :
    (heavy [10, 10, 1] true rng).Allows [1] [tenfold (1 / 2)] ∧
      (heavy [10, 10, 1] true rng).update [1] [tenfold (1 / 2)] = heavy [10, 10, 1] true rng ∧
      (heavy [10, 10, 1] true rng).reward [1] [tenfold (1 / 2)] = heavy [10, 100, 1] true rng := by
  have hgrowth : (heavy [10, 10, 1] true rng).policy.growth 1 1 (tenfold (1 / 2)).bandwidth =
      none := by
    have hcrossed : 1 ∈ cappedPaths (heavy [10, 10, 1] true rng).policy :=
      mem_cappedPaths.mpr ⟨by simp [heavy], 4, rfl, by norm_num [heavy]⟩
    rw [growth_eq_ite (by simp [heavy]) (by simp [heavy]), if_pos hcrossed]
  have hlow : ∀ w ∈ (heavy [10, 10, 1] true rng).policy.weights, 1 ≤ w := by simp [heavy]
  have hhigh : ∀ w ∈ (heavy [10, 10, 1] true rng).policy.weights, w ≤ 10 := by simp [heavy]
  obtain ⟨hunraised, hgrow⟩ := grow_set 1 hlow hhigh le_rfl (by norm_num)
  refine ⟨⟨List.nodup_singleton 1, fun _ => ?_⟩, ?_, ?_⟩
  · rw [growths_singleton, hgrowth]
    exact hunraised
  · rw [Play.update_singleton (by simp [heavy]), hgrowth, Option.getD_none, hgrow, Real.exp_zero]
    simp [heavy, List.modify]
  · have hexponent := exponent_tenfold one_half_pos
    have hfactor : (heavy [10, 10, 1] true rng).factor 1 1 (tenfold (1 / 2)).bandwidth = 10 := by
      rw [← Real.exp_log (show (0 : ℝ) < 10 by norm_num), ← hexponent]
      rfl
    rw [Play.reward_singleton (by simp [heavy])]
    unfold Play.multiply
    rw [if_neg (by simp [heavy]), hfactor]
    simp [heavy, List.modify]
    norm_num

theorem third_notMem_cappedPaths (rng : ρ) :
    2 ∉ cappedPaths (heavy [10, 10, 1] true rng).policy := by
  rw [mem_cappedPaths]
  rintro ⟨-, c, hc, hle⟩
  obtain rfl := Option.some.inj hc
  norm_num [heavy] at hle

/-- The feedback that makes the weight of a path with the probability one half `10 ^ 101` times as
heavy. -/
noncomputable def lifting : Metric ℝ := ⟨0, 3 * Real.log (10 ^ 101), 0⟩

/-- The third path grows beyond the limit, so that the weights are rescaled. The others come down to
the floor, but they are not raised to it. -/
theorem update_heavy_lifting (rng : ρ) :
    (heavy [10, 10, 1] true rng).Allows [2] [lifting] ∧
      (heavy [10, 10, 1] true rng).update [2] [lifting] =
        heavy [1 / 10 ^ 100, 1 / 10 ^ 100, 1] true rng := by
  have hgrowth : (heavy [10, 10, 1] true rng).policy.growth 1 2 lifting.bandwidth =
      some (Real.log (10 ^ 101)) := by
    rw [growth_eq_ite (by simp [heavy]) (by simp [heavy]), if_neg (third_notMem_cappedPaths rng)]
    simp only [heavy, lifting, List.getD_cons_succ, List.getD_cons_zero, List.length_cons,
      List.length_nil]
    congr 1
    push_cast
    ring
  have hzip : List.zipWith (fun w e => w * Real.exp e) [10, 10, 1]
      ((List.replicate 3 0).set 2 (Real.log (10 ^ 101))) = [10, 10, 10 ^ 101] := by
    rw [show 3 = ([10, 10, 1] : List ℝ).length from rfl, zipWith_exp_set,
      Real.exp_log (by positivity)]
    simp only [List.modify_succ_cons, List.modify_zero_cons, one_mul]
  obtain ⟨hunraised, hgrow⟩ :
      Unraised ((List.replicate 3 0).set 2 (Real.log (10 ^ 101))) [10, 10, 1] ∧
        grow ((List.replicate 3 0).set 2 (Real.log (10 ^ 101))) [10, 10, 1] =
          [10, 10, 10 ^ 101].map (· / (10 ^ 101 : ℝ)) := by
    apply grow_of_excessive (by simp) (by norm_num) hzip
    · simp
    · norm_num
    · norm_num [weightLimit]
    · norm_num [weightFloor]
  have hweights : ([10, 10, 10 ^ 101] : List ℝ).map (· / 10 ^ 101) =
      [1 / 10 ^ 100, 1 / 10 ^ 100, 1] := by
    norm_num
  rw [hweights] at hgrow
  refine ⟨⟨List.nodup_singleton 2, fun _ => ?_⟩, ?_⟩
  · rw [growths_singleton, hgrowth]
    exact hunraised
  · rw [Play.update_singleton (by simp [heavy]), hgrowth]
    exact congrArg (fun weights => heavy weights true rng) hgrow

end Crossing

/-- The textbook and the policy make the same decisions with the same probabilities and cap the same
paths, and their weights differ by a common factor after every call. The runs are those in which
each update names different paths and raises no weight. A second update after a decision must not
select a path that has crossed the cap since then. -/
theorem trace_textbook [DrawSource ρ ℝ] {paths : ℕ} {gamma : ℝ} {rng : ρ} {policy : Exp3 ρ ℝ}
    (h : Exp3.new paths gamma rng = .ok policy) (calls : List Call)
    (hallows : AtUpdates Play.Allows calls (Play.fresh policy))
    (htimely : AtUpdates Play.Timely calls (Play.fresh policy)) :
    List.Forall₂ Agrees (trace Play.update calls (Play.fresh policy))
      (trace Play.reward calls (Play.fresh policy)) := by
  have hsame : SameUpTo 1 policy policy := by
    refine ⟨rfl, ?_, rfl, rfl⟩
    unfold rescale
    simp only [one_mul, List.map_id']
  exact trace_agrees calls (coherent_fresh h) ⟨rfl, 1, one_pos, hsame⟩ hallows htimely

/-- Learn that the first of three paths is good, select two paths, and learn about the second
one. -/
noncomputable def heavyRun : List Call :=
  [.update [0] [tenfold 1], .decide 2, .update [1] [tenfold (1 / 2)]]

/-- The run goes on with a rescaling, after which the weights are those of the last list. -/
theorem trace_textbook_heavy :
    Exp3.new 3 (1 / 2) (⟨ChaCha.ofSeed 1⟩ : RealWords ChaCha) =
      .ok (start 3 (1 / 2) ⟨ChaCha.ofSeed 1⟩) ∧
    AtUpdates Play.Allows (heavyRun ++ [.update [2] [lifting]])
      (Play.fresh (start 3 (1 / 2) (⟨ChaCha.ofSeed 1⟩ : RealWords ChaCha))) ∧
    AtUpdates Play.Timely (heavyRun ++ [.update [2] [lifting]])
      (Play.fresh (start 3 (1 / 2) (⟨ChaCha.ofSeed 1⟩ : RealWords ChaCha))) ∧
    (trace Play.update (heavyRun ++ [.update [2] [lifting]])
        (Play.fresh (start 3 (1 / 2) (⟨ChaCha.ofSeed 1⟩ : RealWords ChaCha)))).map
      (fun shown => shown.2.policy.weights) =
      [[10, 1, 1], [10, 1, 1], [10, 10, 1], [1 / 10 ^ 100, 1 / 10 ^ 100, 1]] ∧
    List.Forall₂ Agrees
      (trace Play.update (heavyRun ++ [.update [2] [lifting]])
        (Play.fresh (start 3 (1 / 2) (⟨ChaCha.ofSeed 1⟩ : RealWords ChaCha))))
      (trace Play.reward (heavyRun ++ [.update [2] [lifting]])
        (Play.fresh (start 3 (1 / 2) (⟨ChaCha.ofSeed 1⟩ : RealWords ChaCha)))) := by
  have hnew := new_real one_half_pos one_half_lt_one 3 (⟨ChaCha.ofSeed 1⟩ : RealWords ChaCha)
  obtain ⟨hstart, hupdate, -⟩ := update_start_heavy (⟨ChaCha.ofSeed 1⟩ : RealWords ChaCha)
  obtain ⟨rng, hdecide⟩ := decide_heavy (⟨ChaCha.ofSeed 1⟩ : RealWords ChaCha)
  obtain ⟨hsecond, hupdate', -⟩ := update_heavy rng
  obtain ⟨hthird, hupdate''⟩ := update_heavy_lifting rng
  have hallows : AtUpdates Play.Allows (heavyRun ++ [.update [2] [lifting]])
      (Play.fresh (start 3 (1 / 2) (⟨ChaCha.ofSeed 1⟩ : RealWords ChaCha))) := by
    unfold heavyRun
    simp only [List.cons_append, List.nil_append, AtUpdates, hupdate, hdecide, hupdate']
    exact ⟨hstart, hsecond, hthird, trivial⟩
  have htimely : AtUpdates Play.Timely (heavyRun ++ [.update [2] [lifting]])
      (Play.fresh (start 3 (1 / 2) (⟨ChaCha.ofSeed 1⟩ : RealWords ChaCha))) := by
    unfold heavyRun
    simp only [List.cons_append, List.nil_append, AtUpdates, hupdate, hdecide, hupdate']
    refine ⟨Or.inl rfl, Or.inl rfl, Or.inr fun path hpath => ?_, trivial⟩
    -- The third path is below the cap, as it was in the decision.
    rw [List.mem_singleton.mp hpath]
    exact iff_of_false (by simp [heavy]) (third_notMem_cappedPaths rng)
  refine ⟨hnew, hallows, htimely, ?_, trace_textbook hnew _ hallows htimely⟩
  unfold heavyRun
  simp only [List.cons_append, List.nil_append, trace, hupdate, hdecide, hupdate', hupdate'',
    List.map_cons, List.map_nil]
  rfl

/-- After the second path has crossed the cap, another update of it separates the policy from the
textbook. -/
theorem trace_textbook_fails_twice :
    Exp3.new 3 (1 / 2) (⟨ChaCha.ofSeed 1⟩ : RealWords ChaCha) =
      .ok (start 3 (1 / 2) ⟨ChaCha.ofSeed 1⟩) ∧
    AtUpdates Play.Allows (heavyRun ++ [.update [1] [tenfold (1 / 2)]])
      (Play.fresh (start 3 (1 / 2) (⟨ChaCha.ofSeed 1⟩ : RealWords ChaCha))) ∧
    ¬ List.Forall₂ Agrees
      (trace Play.update (heavyRun ++ [.update [1] [tenfold (1 / 2)]])
        (Play.fresh (start 3 (1 / 2) (⟨ChaCha.ofSeed 1⟩ : RealWords ChaCha))))
      (trace Play.reward (heavyRun ++ [.update [1] [tenfold (1 / 2)]])
        (Play.fresh (start 3 (1 / 2) (⟨ChaCha.ofSeed 1⟩ : RealWords ChaCha)))) := by
  have hnew := new_real one_half_pos one_half_lt_one 3 (⟨ChaCha.ofSeed 1⟩ : RealWords ChaCha)
  obtain ⟨hstart, hupdate, hreward⟩ := update_start_heavy (⟨ChaCha.ofSeed 1⟩ : RealWords ChaCha)
  obtain ⟨rng, hdecide⟩ := decide_heavy (⟨ChaCha.ofSeed 1⟩ : RealWords ChaCha)
  obtain ⟨hsecond, hupdate', hreward'⟩ := update_heavy rng
  obtain ⟨hthird, hupdate'', hreward''⟩ := update_heavy_again rng
  refine ⟨hnew, ?_, ?_⟩
  · unfold heavyRun
    simp only [List.cons_append, List.nil_append, AtUpdates, hupdate, hdecide, hupdate']
    exact ⟨hstart, hsecond, hthird, trivial⟩
  · intro hagree
    unfold heavyRun at hagree
    simp only [List.cons_append, List.nil_append, trace, hreward, hupdate, hdecide, hreward',
      hupdate', hupdate'', hreward'', List.forall₂_cons] at hagree
    obtain ⟨-, -, -, hlast, -⟩ := hagree
    obtain ⟨factor, -, hweights⟩ := hlast.weights_eq
    have hproportion : (10 : ℝ) = factor * 10 ∧ 100 = factor * 10 := by
      simp only [heavy, rescale, List.map_cons, List.cons.injEq] at hweights
      exact ⟨hweights.1, hweights.2.1⟩
    linarith

end PathSelection.Exp3
