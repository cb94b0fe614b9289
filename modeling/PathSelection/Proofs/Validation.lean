import PathSelection.Proofs.Binary64
import PathSelection.Proofs.Policy.Checked
import PathSelection.Lp.Exact
import PathSelection.Simulator

namespace PathSelection

section Each

variable {β γ ε : Type} {f : β → Except ε γ} {xs : List β}

/-- When it works for each entry, it works for the list. -/
theorem mapM_of_forall {P : γ → Prop} (h : ∀ x ∈ xs, ∃ y, f x = .ok y ∧ P y) :
    ∃ ys, xs.mapM f = .ok ys ∧ ys.length = xs.length ∧ ∀ y ∈ ys, P y := by
  induction xs with
  | nil => exact ⟨[], rfl, rfl, by simp⟩
  | cons x xs ih =>
    obtain ⟨y, hy, hy'⟩ := h x List.mem_cons_self
    obtain ⟨ys, hys, hlength, hall⟩ := ih fun z hz => h z (List.mem_cons_of_mem x hz)
    refine ⟨y :: ys, ?_, congrArg (· + 1) hlength, List.forall_mem_cons.mpr ⟨hy', hall⟩⟩
    rw [List.mapM_cons, hy, hys]
    rfl

/-- When it fails for some entry, it fails for the list, with the failure of one of the entries. -/
theorem mapM_of_error {P : ε → Prop} {x : β} {e : ε} (hx : x ∈ xs) (he : f x = .error e)
    (h : ∀ z ∈ xs, ∀ e, f z = .error e → P e) : ∃ e, xs.mapM f = .error e ∧ P e := by
  induction xs with
  | nil => exact absurd hx List.not_mem_nil
  | cons z xs ih =>
    rw [List.mapM_cons]
    cases hz : f z with
    | error e => exact ⟨e, rfl, h z List.mem_cons_self e hz⟩
    | ok y =>
      have htail : x ∈ xs := by
        rcases List.mem_cons.mp hx with rfl | hx
        · exact absurd (hz.symm.trans he) (by simp)
        · exact hx
      obtain ⟨e, hmap, he'⟩ := ih htail fun z hz => h z (List.mem_cons_of_mem _ hz)
      refine ⟨e, ?_, he'⟩
      rw [hmap]
      rfl

end Each

/-- The parameters that a policy of a kind is made with. -/
def PolicyKind.parameters : PolicyKind → List String
  | .constrained _ => ["threshold", "damping"]
  | .exp3 => ["gamma"]
  | .thompson | .klUcb | .uniform => []

section Check

variable {α : Type} [Scalar α] {c : Config α}

/-- What an accepted configuration has. -/
structure Config.Accepted (c : Config α) : Prop where
  threshold : Scalar.isFinite c.threshold = true
  damping : 0 ≤ c.damping ∧ c.damping < 1
  gamma : 0 < c.gamma ∧ c.gamma < 1
  deviation : Scalar.isFinite c.deviation = true ∧ 0 ≤ c.deviation

/-- For which parameter a configuration is rejected, and its value. -/
inductive Config.Rejected (c : Config α) : String → ParameterValue α → Prop
  | repetitions : Rejected c "repetitions" (.text "0")
  | threshold (h : ¬ Scalar.isFinite c.threshold = true) :
      Rejected c "threshold" (.number c.threshold)
  | damping (hthreshold : Scalar.isFinite c.threshold = true)
      (h : ¬(0 ≤ c.damping ∧ c.damping < 1)) : Rejected c "damping" (.number c.damping)
  | gamma (h : ¬(0 < c.gamma ∧ c.gamma < 1)) : Rejected c "gamma" (.number c.gamma)
  | deviation (h : ¬(Scalar.isFinite c.deviation = true ∧ 0 ≤ c.deviation)) :
      Rejected c "stddev" (.number c.deviation)
  | policies : Rejected c "policies" (.text "[]")

theorem Config.validate_cases (c : Config α) :
    (c.validate = .ok () ∧ c.Accepted) ∨
      ∃ name value, c.validate = .error (.invalidParameter name value) ∧ c.Rejected name value := by
  unfold Config.validate
  split
  · exact Or.inr ⟨_, _, rfl, .repetitions⟩
  · split
    · next h => exact Or.inr ⟨_, _, rfl, .threshold (by simpa using h)⟩
    · next hthreshold =>
      have hfinite : Scalar.isFinite c.threshold = true := by simpa using hthreshold
      split
      · next h => exact Or.inr ⟨_, _, rfl, .damping hfinite h⟩
      · next hdamping =>
        split
        · next h => exact Or.inr ⟨_, _, rfl, .gamma h⟩
        · next hgamma =>
          split
          · next h => exact Or.inr ⟨_, _, rfl, .deviation h⟩
          · next hdeviation =>
            split
            · exact Or.inr ⟨_, _, rfl, .policies⟩
            · exact Or.inl ⟨rfl, hfinite, not_not.mp hdamping, not_not.mp hgamma,
                not_not.mp hdeviation⟩

theorem Config.accepted (h : c.validate = .ok ()) : c.Accepted := by
  rcases c.validate_cases with ⟨-, haccepted⟩ | ⟨name, value, herror, -⟩
  · exact haccepted
  · exact absurd (h.symm.trans herror) (by simp)

theorem Config.rejected {name : String} {value : ParameterValue α}
    (h : c.validate = .error (.invalidParameter name value)) : c.Rejected name value := by
  rcases c.validate_cases with ⟨hok, -⟩ | ⟨name', value', herror, hrejected⟩
  · exact absurd (h.symm.trans hok) (by simp)
  · obtain ⟨rfl, rfl⟩ := Error.invalidParameter.inj (Except.error.inj (h.symm.trans herror))
    exact hrejected

end Check

section Policies

variable {ρ α : Type} [Scalar α] {c : Config α} {kind : PolicyKind} {paths : Nat} {rng : ρ}

theorem buildPolicy_constrained (engine : Lp.Engine α) (c : Config α) (resource : Resource)
    (paths : Nat) (rng : ρ) :
    buildPolicy engine c (.constrained resource) paths rng =
      (Constrained.new engine resource paths c.threshold c.damping rng).map .constrained := by
  unfold buildPolicy
  dsimp only
  cases Constrained.new engine resource paths c.threshold c.damping rng <;> rfl

theorem buildPolicy_exp3 (engine : Lp.Engine α) (c : Config α) (paths : Nat) (rng : ρ) :
    buildPolicy engine c .exp3 paths rng = (Exp3.new paths c.gamma rng).map .exp3 := by
  unfold buildPolicy
  dsimp only
  cases Exp3.new paths c.gamma rng <;> rfl

theorem Config.Accepted.buildPolicy [RandomSource ρ α] (h : c.Accepted) (engine : Lp.Engine α)
    (kind : PolicyKind) (paths : Nat) (rng : ρ) :
    ∃ p, buildPolicy engine c kind paths rng = .ok p ∧ Policy.Reachable paths p := by
  cases kind with
  | constrained resource =>
    have hnew : Constrained.new engine resource paths c.threshold c.damping rng = .ok
        ⟨engine, resource, c.threshold, c.damping, List.replicate paths Belief.initial, rng⟩ := by
      unfold Constrained.new
      rw [h.threshold, if_neg (by simp), if_pos h.damping]
    rw [buildPolicy_constrained, hnew]
    exact ⟨_, rfl, .constrained engine resource c.threshold c.damping rng hnew⟩
  | thompson => exact ⟨_, rfl, .thompson 1 1 rng⟩
  | klUcb => exact ⟨_, rfl, .klUcb c.leader⟩
  | exp3 =>
    have hnew : Exp3.new paths c.gamma rng =
        .ok ⟨c.gamma, List.replicate paths 1, List.replicate paths 1, none, rng⟩ := by
      unfold Exp3.new
      rw [if_pos h.gamma]
    rw [buildPolicy_exp3, hnew]
    exact ⟨_, rfl, .exp3 c.gamma rng hnew⟩
  | uniform => exact ⟨_, rfl, .uniform rng⟩

theorem Config.Rejected.buildPolicy {name : String} {value : ParameterValue α}
    (h : c.Rejected name value) (hname : name ∈ kind.parameters) (engine : Lp.Engine α)
    (paths : Nat) (rng : ρ) :
    buildPolicy engine c kind paths rng = .error (.invalidParameter name value) := by
  cases kind with
  | constrained resource =>
    rw [buildPolicy_constrained]
    unfold Constrained.new
    cases h with
    | threshold hthreshold =>
      rw [if_pos (by simpa using hthreshold)]
      rfl
    | damping hthreshold hdamping =>
      rw [hthreshold, if_neg (by simp), if_neg hdamping]
      rfl
    | repetitions | gamma | deviation | policies => simp [PolicyKind.parameters] at hname
  | exp3 =>
    rw [buildPolicy_exp3]
    unfold Exp3.new
    cases h with
    | gamma hgamma =>
      rw [if_neg hgamma]
      rfl
    | repetitions | threshold | damping | deviation | policies =>
      simp [PolicyKind.parameters] at hname
  | thompson | klUcb | uniform => exact absurd hname List.not_mem_nil

/-- Nothing but the value of a parameter can keep a policy from being made. -/
theorem buildPolicy_error {engine : Lp.Engine α} {e : Error α}
    (h : buildPolicy engine c kind paths rng = .error e) :
    ∃ name value, e = .invalidParameter name value := by
  cases kind with
  | constrained resource =>
    rw [buildPolicy_constrained] at h
    unfold Constrained.new at h
    split at h
    · exact ⟨_, _, (Except.error.inj h).symm⟩
    · split at h
      · exact absurd h (by simp [Except.map])
      · exact ⟨_, _, (Except.error.inj h).symm⟩
  | exp3 =>
    rw [buildPolicy_exp3] at h
    unfold Exp3.new at h
    split at h
    · exact absurd h (by simp [Except.map])
    · exact ⟨_, _, (Except.error.inj h).symm⟩
  | thompson | klUcb | uniform => exact absurd h (by simp [buildPolicy])

theorem Config.Accepted.buildPolicies [RandomSource ρ α] (h : c.Accepted) (engine : Lp.Engine α)
    (generator : UInt64 → ρ) (seeds : SeedSequence) (kinds : List PolicyKind) (paths : Nat) :
    ∃ policies, buildPolicies engine generator seeds c kinds paths = .ok policies ∧
      ∀ p ∈ policies, PathPolicy.available p = paths := by
  unfold PathSelection.buildPolicies
  refine (mapM_of_forall fun entry _ => ?_).imp fun policies h => ⟨h.1, h.2.2⟩
  obtain ⟨p, hp, hreach⟩ :=
    h.buildPolicy engine entry.1 paths (generator (seeds.seedFor "policy" entry.2))
  exact ⟨p, hp, hreach.available_eq⟩

theorem Config.Rejected.buildPolicies {name : String} {value : ParameterValue α}
    (h : c.Rejected name value) {kinds : List PolicyKind} (hkind : kind ∈ kinds)
    (hname : name ∈ kind.parameters) (engine : Lp.Engine α) (generator : UInt64 → ρ)
    (seeds : SeedSequence) (paths : Nat) :
    ∃ name value, buildPolicies engine generator seeds c kinds paths =
      .error (.invalidParameter name value) := by
  obtain ⟨i, hi, rfl⟩ := List.mem_iff_getElem.mp hkind
  have hentry : (kinds[i], i) ∈ kinds.zipIdx :=
    List.mk_mem_zipIdx_iff_getElem?.mpr (List.getElem?_eq_getElem hi)
  -- An earlier policy of the list may fail for another parameter.
  have hfails := h.buildPolicy hname engine paths (generator (seeds.seedFor "policy" i))
  obtain ⟨e, he, name', value', rfl⟩ := mapM_of_error hentry hfails
    (f := fun entry => PathSelection.buildPolicy engine c entry.1 paths
      (generator (seeds.seedFor "policy" entry.2)))
    fun _ _ _ => buildPolicy_error
  exact ⟨name', value', he⟩

end Policies

section Paths

variable {ρ : Type} {x : Float}

theorem checkDeviation_eq_ok {name : String} (hfinite : Scalar.isFinite x = true)
    (hsign : 0 ≤ x) : Path.checkDeviation name x = .ok () := by
  have hnot : ¬ x < 0 := (float_not_lt_zero hfinite).mpr hsign
  unfold Path.checkDeviation
  rw [hfinite]
  exact if_neg (by simpa using hnot)

theorem checkDeviation_eq_error {name : String}
    (h : ¬(Scalar.isFinite x = true ∧ 0 ≤ x)) :
    Path.checkDeviation name x = .error (.invalidParameter name (.number x)) := by
  unfold Path.checkDeviation
  apply if_pos
  by_cases hfinite : Scalar.isFinite x = true
  · have hlt : x < 0 := not_not.mp fun hnot => h ⟨hfinite, (float_not_lt_zero hfinite).mp hnot⟩
    simpa using Or.inr hlt
  · simp [hfinite]

theorem newNormal_eq_ok (hfinite : Scalar.isFinite x = true) (hsign : 0 ≤ x) (mean : Metric Float)
    (rng : ρ) : Path.newNormal mean ⟨x, x, x⟩ rng = .ok (.normal mean ⟨x, x, x⟩ rng) := by
  unfold Path.newNormal
  simp only [checkDeviation_eq_ok hfinite hsign]

theorem newNormal_eq_error (h : ¬(Scalar.isFinite x = true ∧ 0 ≤ x)) (mean : Metric Float)
    (rng : ρ) :
    Path.newNormal mean ⟨x, x, x⟩ rng = .error (.invalidParameter "stddev_r" (.number x)) := by
  unfold Path.newNormal
  rw [checkDeviation_eq_error h]

theorem Config.Accepted.buildPaths {c : Config Float} (h : c.Accepted) {kind : PathKind}
    (hkind : kind ≠ .source) (generator : UInt64 → ρ) (seeds : SeedSequence)
    (means : List (Metric Float)) :
    ∃ paths, buildPaths generator seeds kind c.deviation means = .ok paths ∧
      paths.length = means.length := by
  unfold PathSelection.buildPaths
  refine (mapM_of_forall (P := fun _ => True) fun entry _ => ?_).imp fun paths h =>
    ⟨h.1, h.2.1.trans List.length_zipIdx⟩
  cases kind with
  | fixed | bernoulli => exact ⟨_, rfl, trivial⟩
  | normal => exact ⟨_, newNormal_eq_ok h.deviation.1 h.deviation.2 _ _, trivial⟩
  | source => exact absurd rfl hkind

theorem Config.Rejected.buildPaths {c : Config Float} {name : String}
    {value : ParameterValue Float} (h : c.Rejected name value) (hname : name = "stddev")
    (generator : UInt64 → ρ) (seeds : SeedSequence) {means : List (Metric Float)}
    (hmeans : means ≠ []) :
    buildPaths generator seeds .normal c.deviation means =
      .error (.invalidParameter "stddev_r" value) := by
  cases h with
  | deviation h =>
    obtain ⟨mean, means, rfl⟩ := List.exists_cons_of_ne_nil hmeans
    unfold PathSelection.buildPaths
    rw [List.zipIdx_cons, List.mapM_cons]
    dsimp only
    rw [newNormal_eq_error h]
    rfl
  | repetitions | threshold | damping | gamma | policies => exact absurd hname (by decide)

end Paths

section Start

variable {π σ ρ α : Type} [Scalar α] [PathPolicy π α]

/-- Policies for as many paths as there are can only be wanted to play too many of them. -/
theorem Simulator.new_eq_error {paths : List (Path ρ α)} {policies : List π} (c : Config α)
    (source : Option σ) (h : ∀ p ∈ policies, PathPolicy.available p = paths.length) (e : Error α) :
    Simulator.new paths policies c source = .error e ↔
      paths.length < c.plays ∧ e = .tooManyPaths c.plays paths.length := by
  have hfind : (policies.find? fun p => PathPolicy.available p != paths.length) = none :=
    List.find?_eq_none.mpr fun p hp => by simp [h p hp]
  unfold Simulator.new checkPlays
  dsimp only
  by_cases hmany : paths.length < c.plays
  · rw [if_pos hmany]
    simp [hmany, eq_comm]
  · rw [if_neg hmany, hfind]
    simp [hmany]

end Start

section Whole

variable {σ ρ : Type} [RandomSource ρ Float]

/-- The check of a configuration is enough, whatever the numbers in it are: if it is accepted, all
policies and all simulated paths can be made, and a run over these can only be refused for too few
paths. What is made of a parameter that is rejected is rejected as well. -/
theorem Config.validate_suffices (c : Config Float) (engine : Lp.Engine Float)
    (generator : UInt64 → ρ) (seeds : SeedSequence) :
    (c.validate = .ok () → ∀ kinds k, ∃ policies : List (Policy ρ Float),
      buildPolicies engine generator seeds c kinds k = .ok policies ∧
      ∀ kind ≠ .source, ∀ means, ∃ paths : List (Path ρ Float),
        buildPaths generator seeds kind c.deviation means = .ok paths ∧
        (means.length = k → ∀ (source : Option σ) (e : Error Float),
          Simulator.new paths policies c source = .error e ↔
            k < c.plays ∧ e = .tooManyPaths c.plays k)) ∧
    ∀ name value, c.validate = .error (.invalidParameter name value) →
      (∀ kind k (rng : ρ), name ∈ PolicyKind.parameters kind →
        buildPolicy engine c kind k rng = .error (.invalidParameter name value)) ∧
      (∀ kinds k, (∃ kind ∈ kinds, name ∈ PolicyKind.parameters kind) → ∃ name value,
        buildPolicies engine generator seeds c kinds k = .error (.invalidParameter name value)) ∧
      (name = "stddev" → ∀ means ≠ [],
        buildPaths generator seeds .normal c.deviation means =
          .error (.invalidParameter "stddev_r" value)) := by
  constructor
  · intro hvalid kinds k
    have haccepted := Config.accepted hvalid
    obtain ⟨policies, hpolicies, havailable⟩ :=
      haccepted.buildPolicies engine generator seeds kinds k
    refine ⟨policies, hpolicies, fun kind hkind means => ?_⟩
    obtain ⟨paths, hpaths, hlength⟩ := haccepted.buildPaths hkind generator seeds means
    refine ⟨paths, hpaths, fun hmeans source e => ?_⟩
    obtain rfl := hlength.trans hmeans
    exact Simulator.new_eq_error c source havailable e
  · intro name value hinvalid
    have hrejected := Config.rejected hinvalid
    refine ⟨fun kind k rng hname => hrejected.buildPolicy hname engine k rng, ?_, ?_⟩
    · rintro kinds k ⟨kind, hkind, hname⟩
      exact hrejected.buildPolicies hkind hname engine generator seeds k
    · intro hname means hmeans
      exact hrejected.buildPaths hname generator seeds hmeans

/-- Without forgetting and without deviation all can be made, also when these zeros are negative. A
rate of exploration that is no number is rejected, and so is the policy that needs it. -/
theorem Config.validate_suffices_zero :
    let seeds : SeedSequence := ⟨1⟩
    let still : Config Float := { Config.standard with damping := -0, deviation := -0 }
    let wild : Config Float := { Config.standard with gamma := 0 / 0 }
    still.validate = .ok () ∧
      (∃ (policies : List (Policy ChaCha Float)) (paths : List (Path ChaCha Float)),
        buildPolicies Lp.Exact.engine ChaCha.ofSeed seeds still [.constrained .loss, .exp3] 1 =
            .ok policies ∧
          buildPaths ChaCha.ofSeed seeds .normal still.deviation [⟨0.5, 0.5, 0.5⟩] = .ok paths ∧
          Simulator.new paths policies still (none : Option Unit) = .error (.tooManyPaths 2 1)) ∧
      wild.validate = .error (.invalidParameter "gamma" (.number wild.gamma)) ∧
      buildPolicy Lp.Exact.engine wild .exp3 3 (ChaCha.ofSeed 1) =
        .error (.invalidParameter "gamma" (.number wild.gamma)) := by
  intro seeds still wild
  have hstill : still.validate = .ok () := by decide
  have hwild : wild.validate = .error (.invalidParameter "gamma" (.number wild.gamma)) := by
    unfold Config.validate
    rw [if_neg (by decide), if_neg (by decide), if_neg (by decide), if_pos (by decide)]
  obtain ⟨hmade, -⟩ := validate_suffices (σ := Unit) still Lp.Exact.engine ChaCha.ofSeed seeds
  obtain ⟨policies, hpolicies, hpaths⟩ := hmade hstill [.constrained .loss, .exp3] 1
  obtain ⟨paths, hpaths, hstart⟩ := hpaths .normal (by decide) [⟨0.5, 0.5, 0.5⟩]
  obtain ⟨-, hrejected⟩ := validate_suffices (σ := Unit) wild Lp.Exact.engine ChaCha.ofSeed seeds
  refine ⟨hstill, ⟨policies, paths, hpolicies, hpaths, ?_⟩, hwild, ?_⟩
  · exact (hstart rfl none (.tooManyPaths 2 1)).mpr ⟨by decide, rfl⟩
  · exact (hrejected "gamma" _ hwild).1 .exp3 3 (ChaCha.ofSeed 1) (by decide)

end Whole

end PathSelection
