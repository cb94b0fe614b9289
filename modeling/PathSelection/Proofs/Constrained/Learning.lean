import PathSelection.Proofs.Policy.Checked
import PathSelection.Proofs.Policy.Calls

namespace PathSelection.Constrained

section Trials

variable {α : Type}

/-- The belief after one trial of the bandwidth and one of the cost. -/
def Belief.observe (observe : BetaArm α → Bool → BetaArm α) (b : Belief α) (trial : Bool × Bool) :
    Belief α :=
  { b with bandwidth := observe b.bandwidth trial.1, cost := observe b.cost trial.2 }

variable {observe : BetaArm α → Bool → BetaArm α}

/-- What holds of a posterior with the number of its trials, if each trial preserves it. -/
theorem foldl_observe {P : ℕ → BetaArm α → Prop}
    (hobserve : ∀ n arm success, P n arm → P (n + 1) (observe arm success))
    (trials : List (Bool × Bool)) {n : ℕ} {b : Belief α} (hbandwidth : P n b.bandwidth)
    (hcost : P n b.cost) :
    P (n + trials.length) (trials.foldl (Belief.observe observe) b).bandwidth ∧
      P (n + trials.length) (trials.foldl (Belief.observe observe) b).cost := by
  induction trials generalizing n b with
  | nil => exact ⟨hbandwidth, hcost⟩
  | cons trial trials ih =>
    have hnext : n + (trial :: trials).length = n + 1 + trials.length := by
      rw [List.length_cons]
      omega
    rw [List.foldl_cons, hnext]
    exact ih (hobserve n _ trial.1 hbandwidth) (hobserve n _ trial.2 hcost)

/-- The running averages, and over how many measurements they are taken. -/
def Belief.averages (b : Belief α) : α × α × ℕ := (b.averageBandwidth, b.averageCost, b.averaged)

/-- Trials leave the averages as they are. -/
theorem foldl_observe_averages (trials : List (Bool × Bool)) (b : Belief α) :
    Belief.averages (trials.foldl (Belief.observe observe) b) = Belief.averages b := by
  induction trials generalizing b with
  | nil => rfl
  | cons trial trials ih => exact ih _

end Trials

section Belief

variable {α : Type} [Scalar α]

/-- The belief when only a share of the evidence is kept. -/
def Belief.forget (memory : α) (b : Belief α) : Belief α :=
  { b with bandwidth := b.bandwidth.forget memory, cost := b.cost.forget memory }

/-- Averages leave the posteriors as they are. -/
theorem foldl_average_arms (resource : Resource) (metrics : List (Metric α)) (b : Belief α) :
    let after := metrics.foldl (fun b metric => Belief.average resource metric b) b
    after.bandwidth = b.bandwidth ∧ after.cost = b.cost := by
  apply List.foldlRecOn (motive := fun after : Belief α =>
    after.bandwidth = b.bandwidth ∧ after.cost = b.cost)
  · exact ⟨rfl, rfl⟩
  · intro after h metric _
    exact h

/-- How an update may change the belief in a path on which it has taken some measurements: each of
them is one trial, with any outcome, or one value for the averages. -/
inductive Revises (resource : Resource) (memory : α) :
    RoundMode → List (Metric α) → Belief α → Belief α → Prop
  | vanilla {metrics : List (Metric α)} {b : Belief α} (trials : List (Bool × Bool))
      (hlength : trials.length = metrics.length) :
      Revises resource memory .vanilla metrics b
        (trials.foldl (Belief.observe BetaArm.observe) b)
  | damped {metrics : List (Metric α)} {b : Belief α} (trials : List (Bool × Bool))
      (hlength : trials.length = metrics.length) (hne : metrics ≠ []) :
      Revises resource memory .damped metrics b
        (trials.foldl (Belief.observe (BetaArm.observeDamped memory)) b)
  | forgets {b : Belief α} : Revises resource memory .damped [] b (Belief.forget memory b)
  | averaged {metrics : List (Metric α)} {b : Belief α} :
      Revises resource memory .averaged metrics b
        (metrics.foldl (fun b metric => Belief.average resource metric b) b)

/-- The averages of a path take in what was measured on it. -/
theorem getElem?_averages (resource : Resource) (entries : List (ℕ × Metric α))
    (beliefs : List (Belief α)) (path : ℕ) :
    (entries.foldl (fun beliefs (path, metric) =>
        beliefs.modify path (Belief.average resource metric)) beliefs)[path]? =
      beliefs[path]?.map fun b =>
        (about entries path).foldl (fun b metric => Belief.average resource metric b) b := by
  induction entries generalizing beliefs with
  | nil => exact Option.map_id'.symm
  | cons entry entries ih =>
    obtain ⟨i, metric⟩ := entry
    rw [List.foldl_cons, ih]
    dsimp only
    by_cases hi : i = path
    · subst hi
      rw [List.getElem?_modify_eq, about_cons_self, Option.map_eq_map, Option.map_map]
      rfl
    · rw [List.getElem?_modify_ne _ _ hi, about_cons_of_ne hi]

theorem getElem?_forgetOthers (memory : α) (selected : List ℕ) (beliefs : List (Belief α))
    (path : ℕ) :
    (forgetOthers memory selected beliefs)[path]? =
      beliefs[path]?.map fun b => if path ∈ selected then b else Belief.forget memory b := by
  unfold forgetOthers
  rw [List.getElem?_mapIdx]
  simp only [List.contains_iff_mem]
  rfl

variable {ρ : Type} [RandomSource ρ α]

/-- The posteriors of a path take in one trial for each measurement on it, with outcomes that do not
depend on how they are taken in. -/
theorem exists_trials (resource : Resource) (entries : List (ℕ × Metric α)) (rng : ρ) (path : ℕ) :
    ∃ trials : List (Bool × Bool), trials.length = (about entries path).length ∧
      ∀ observe (beliefs : List (Belief α)),
        (learn resource observe entries beliefs rng).1[path]? =
          beliefs[path]?.map fun b => trials.foldl (Belief.observe observe) b := by
  -- By induction on the measurements: the first one changes the belief in its own path only.
  induction entries generalizing rng with
  | nil => exact ⟨[], rfl, fun _ _ => Option.map_id'.symm⟩
  | cons entry entries ih =>
    obtain ⟨i, metric⟩ := entry
    let trial := (outcomes resource metric rng).1
    let rest := (outcomes resource metric rng).2
    obtain ⟨trials, hlength, hlearn⟩ := ih rest
    have hcons : ∀ observe (beliefs : List (Belief α)),
        learn resource observe ((i, metric) :: entries) beliefs rng =
          learn resource observe entries (beliefs.modify i fun b => Belief.observe observe b trial)
            rest := fun _ _ => rfl
    by_cases hi : i = path
    · subst hi
      refine ⟨trial :: trials, ?_, fun observe beliefs => ?_⟩
      · rw [about_cons_self, List.length_cons, List.length_cons, hlength]
      · rw [hcons, hlearn, List.getElem?_modify_eq, Option.map_eq_map, Option.map_map]
        rfl
    · refine ⟨trials, ?_, fun observe beliefs => ?_⟩
      · rw [about_cons_of_ne hi, hlength]
      · rw [hcons, hlearn, List.getElem?_modify_ne _ _ hi]

/-- The generator advances by the outcomes alone. -/
theorem learn_snd (resource : Resource) (observe observe' : BetaArm α → Bool → BetaArm α)
    (entries : List (ℕ × Metric α)) (beliefs beliefs' : List (Belief α)) (rng : ρ) :
    (learn resource observe entries beliefs rng).2 =
      (learn resource observe' entries beliefs' rng).2 := by
  induction entries generalizing beliefs beliefs' rng with
  | nil => rfl
  | cons entry entries ih => exact ih _ _ _

end Belief

section Calls

variable {ρ α : Type} [Scalar α] [RandomSource ρ α] {p : Constrained ρ α}

/-- An update that is accepted revises the belief in each path. -/
theorem revises_of_update {mode : RoundMode} {selected : List ℕ} {measurements : List (Metric α)}
    (hcheck : (checkFeedback p.beliefs.length selected measurements : Except (Error α) Unit) =
      .ok ())
    {path : ℕ} {after : Belief α}
    (hafter : (mode.update selected measurements p).2.beliefs[path]? = some after) :
    ∃ before, p.beliefs[path]? = some before ∧
      Revises p.resource (1 - p.damping) mode (about (selected.zip measurements) path) before
        after := by
  cases mode with
  | vanilla =>
    obtain ⟨trials, hlength, hlearn⟩ :=
      exists_trials p.resource (selected.zip measurements) p.rng path
    have hbeliefs : (p.update selected measurements).2.beliefs =
        (learn p.resource BetaArm.observe (selected.zip measurements) p.beliefs p.rng).1 := by
      unfold Constrained.update
      rw [hcheck]
    change (p.update selected measurements).2.beliefs[path]? = some after at hafter
    rw [hbeliefs, hlearn, Option.map_eq_some_iff] at hafter
    obtain ⟨before, hbefore, rfl⟩ := hafter
    exact ⟨before, hbefore, .vanilla trials hlength⟩
  | damped =>
    obtain ⟨trials, hlength, hlearn⟩ :=
      exists_trials p.resource (selected.zip measurements) p.rng path
    have hbeliefs : (p.updateDamped selected measurements).2.beliefs =
        forgetOthers (1 - p.damping) selected (learn p.resource
          (BetaArm.observeDamped (1 - p.damping)) (selected.zip measurements) p.beliefs
          p.rng).1 := by
      unfold Constrained.updateDamped
      rw [hcheck]
    have hselected : (selected.zip measurements).map Prod.fst = selected :=
      List.map_fst_zip (checkFeedback_eq_ok.mp hcheck).1.le
    change (p.updateDamped selected measurements).2.beliefs[path]? = some after at hafter
    rw [hbeliefs, getElem?_forgetOthers, hlearn, Option.map_map, Option.map_eq_some_iff] at hafter
    obtain ⟨before, hbefore, rfl⟩ := hafter
    refine ⟨before, hbefore, ?_⟩
    by_cases hmem : path ∈ selected
    · rw [Function.comp_apply, if_pos hmem]
      refine .damped trials hlength fun hnil => ?_
      rw [about_eq_nil_iff, hselected] at hnil
      exact hnil hmem
    · -- Without a measurement there is no trial, and the path forgets.
      have hnil : about (selected.zip measurements) path = [] := by
        rw [about_eq_nil_iff, hselected]
        exact hmem
      rw [hnil, List.length_nil, List.length_eq_zero_iff] at hlength
      rw [Function.comp_apply, if_neg hmem, hlength, hnil]
      exact .forgets
  | averaged =>
    have hbeliefs : (p.updateAveraged selected measurements).2.beliefs =
        (selected.zip measurements).foldl (fun beliefs (path, metric) =>
          beliefs.modify path (Belief.average p.resource metric)) p.beliefs := by
      unfold Constrained.updateAveraged
      rw [hcheck]
    change (p.updateAveraged selected measurements).2.beliefs[path]? = some after at hafter
    rw [hbeliefs, getElem?_averages, Option.map_eq_some_iff] at hafter
    obtain ⟨before, hbefore, rfl⟩ := hafter
    exact ⟨before, hbefore, .averaged⟩

/-- A call changes nothing but the beliefs and the generator. -/
theorem apply_snd (p : Constrained ρ α) (call : Call α) :
    ∃ beliefs rng, (call.apply p).2 = { p with beliefs := beliefs, rng := rng } := by
  cases call with
  | decide mode m =>
    cases mode with
    | vanilla | damped =>
      change ∃ beliefs rng, (p.decide m).2 = { p with beliefs := beliefs, rng := rng }
      unfold Constrained.decide
      split
      · exact ⟨p.beliefs, p.rng, rfl⟩
      · obtain ⟨rng, hkept⟩ := decideFrom_snd _ _ m .sampledPosterior
          { p with rng := (sampleAll p.beliefs p.rng).2 }
        exact ⟨p.beliefs, rng, hkept⟩
    | averaged =>
      change ∃ beliefs rng, (p.decideAveraged m).2 = { p with beliefs := beliefs, rng := rng }
      unfold Constrained.decideAveraged
      split
      · exact ⟨p.beliefs, p.rng, rfl⟩
      · obtain ⟨rng, hkept⟩ := decideFrom_snd (p.beliefs.map Belief.averageCost)
          (p.beliefs.map Belief.averageBandwidth) m .averagedEstimates p
        exact ⟨p.beliefs, rng, hkept⟩
  | update mode selected measurements =>
    unfold Call.apply
    dsimp only
    cases mode with
    | vanilla =>
      change ∃ beliefs rng, (p.update selected measurements).2 = _
      unfold Constrained.update
      split <;> exact ⟨_, _, rfl⟩
    | damped =>
      change ∃ beliefs rng, (p.updateDamped selected measurements).2 = _
      unfold Constrained.updateDamped
      split <;> exact ⟨_, _, rfl⟩
    | averaged =>
      change ∃ beliefs rng, (p.updateAveraged selected measurements).2 = _
      unfold Constrained.updateAveraged
      split <;> exact ⟨_, _, rfl⟩

/-- A call leaves all beliefs as they are, or it is an update that is accepted. -/
theorem apply_cases (p : Constrained ρ α) (call : Call α) :
    call.lessons p = [] ∧ (call.apply p).2.beliefs = p.beliefs ∨
      ∃ lesson, call.lessons p = [lesson] ∧
        ∀ path after, (call.apply p).2.beliefs[path]? = some after →
          ∃ before, p.beliefs[path]? = some before ∧
            Revises p.resource (1 - p.damping) lesson.mode (about lesson.entries path) before
              after := by
  cases call with
  | decide mode m => exact Or.inl ⟨rfl, (p.checked.decides mode m).learned_eq⟩
  | update mode selected measurements =>
    have hlearns := p.checked.learns mode selected measurements
    unfold Call.lessons Call.apply
    dsimp only
    cases hcheck : (checkFeedback p.beliefs.length selected measurements :
        Except (Error α) Unit) with
    | error e =>
      rw [hlearns.refuses hcheck]
      exact Or.inl ⟨rfl, rfl⟩
    | ok =>
      rw [(hlearns.accepts hcheck).1]
      exact Or.inr ⟨_, rfl, fun path after hafter => revises_of_update hcheck hafter⟩

theorem length_apply (p : Constrained ρ α) (call : Call α) :
    (call.apply p).2.beliefs.length = p.beliefs.length := by
  cases call with
  | decide mode m => exact (p.checked.decides mode m).available_eq
  | update mode selected measurements =>
    exact (p.checked.learns mode selected measurements).available_eq

theorem callAll_snd (calls : List (Call α)) (p : Constrained ρ α) :
    ∃ beliefs rng, (callAll calls p).2 = { p with beliefs := beliefs, rng := rng } := by
  apply callAll_induction (P := fun _ (q : Constrained ρ α) =>
    ∃ beliefs rng, q = { p with beliefs := beliefs, rng := rng })
  · rintro _ q call ⟨beliefs, rng, rfl⟩
    exact apply_snd _ call
  · exact ⟨p.beliefs, p.rng, rfl⟩

theorem length_callAll (calls : List (Call α)) (p : Constrained ρ α) :
    (callAll calls p).2.beliefs.length = p.beliefs.length := by
  apply callAll_induction
    (P := fun _ (q : Constrained ρ α) => q.beliefs.length = p.beliefs.length)
  · intro _ q call hlength
    exact (length_apply q call).trans hlength
  · rfl

/-- The updates that are accepted are those that pass the check. -/
theorem taught_eq {paths : ℕ} (hpaths : p.beliefs.length = paths) (calls : List (Call α)) :
    taught calls p = calls.filterMap (Call.lesson? paths) := by
  induction calls generalizing p with
  | nil => rfl
  | cons call calls ih =>
    unfold taught
    rw [ih ((length_apply p call).trans hpaths)]
    cases call with
    | decide mode m => exact (List.filterMap_cons_none rfl).symm
    | update mode selected measurements =>
      have hlearns := p.checked.learns mode selected measurements
      unfold Call.lessons
      dsimp only
      cases hcheck : (checkFeedback p.beliefs.length selected measurements :
          Except (Error α) Unit) with
      | error e =>
        have hnone : (Call.update mode selected measurements).lesson? paths = none := by
          refine if_neg fun haccepted => ?_
          rw [← hpaths, ← checkFeedback_eq_ok, hcheck] at haccepted
          exact absurd haccepted (by simp)
        rw [hlearns.refuses hcheck, List.filterMap_cons_none hnone]
        rfl
      | ok =>
        have hsome : (Call.update mode selected measurements).lesson? paths =
            some ⟨mode, selected.zip measurements⟩ :=
          if_pos (hpaths ▸ checkFeedback_eq_ok.mp hcheck)
        rw [(hlearns.accepts hcheck).1, List.filterMap_cons_some hsome]
        rfl

/-- What the belief in a path satisfies at the start and after each update that is accepted, it
satisfies after every sequence of calls. -/
theorem belief_induction {engine : Lp.Engine α} {resource : Resource} {paths path : ℕ}
    {threshold damping : α} {rng : ρ} {P : List (Lesson α) → Belief α → Prop}
    (hinitial : P [] Belief.initial)
    (hlesson : ∀ history lesson before after, P history before →
      Revises resource (1 - damping) lesson.mode (about lesson.entries path) before after →
      P (history ++ [lesson]) after)
    (hnew : Constrained.new engine resource paths threshold damping rng = .ok p)
    (calls : List (Call α)) {b : Belief α} (hb : (callAll calls p).2.beliefs[path]? = some b) :
    P (taught calls p) b := by
  obtain ⟨-, -, hp⟩ := new_eq_ok_iff.mp hnew
  have hstart : p.resource = resource ∧ p.damping = damping ∧
      ∀ b, p.beliefs[path]? = some b → P [] b := by
    rw [hp]
    refine ⟨rfl, rfl, fun b hb => ?_⟩
    rw [List.eq_of_mem_replicate (List.mem_of_getElem? hb)]
    exact hinitial
  have hall := callAll_induction
    (P := fun history (q : Constrained ρ α) => q.resource = resource ∧ q.damping = damping ∧
      ∀ b, q.beliefs[path]? = some b → P history b) ?_ hstart calls
  · exact hall.2.2 b hb
  · -- The resource and the rate never change, so that all updates revise beliefs by one rule.
    rintro history q call ⟨rfl, rfl, hbelief⟩
    obtain ⟨beliefs, rng, hkept⟩ := apply_snd q call
    refine ⟨by rw [hkept], by rw [hkept], fun after hafter => ?_⟩
    rcases apply_cases q call with ⟨hnone, hsame⟩ | ⟨lesson, hlessons, hrevises⟩
    · rw [hnone, List.append_nil]
      exact hbelief after (hsame ▸ hafter)
    · obtain ⟨before, hbefore, hrevised⟩ := hrevises path after hafter
      rw [hlessons]
      exact hlesson history lesson before after (hbelief before hbefore) hrevised

end Calls

section Start

variable {ρ α : Type} [Scalar α] [RandomSource ρ α]

/-- Without an engine no program is solved, so that decisions take the paths of least cost. -/
def engineless : Lp.Engine α := ⟨fun _ => .error "no engine"⟩

/-- There is a policy with any number of paths. It learns from the updates that pass the check. -/
theorem exists_new (hzero : Scalar.isFinite (0 : α) = true) {damping : α}
    (hdamping : 0 ≤ damping ∧ damping < 1) (resource : Resource) (paths : ℕ) (rng : ρ) :
    ∃ p : Constrained ρ α,
      Constrained.new engineless resource paths 0 damping rng = .ok p ∧
      (∀ calls, taught calls p = calls.filterMap (Call.lesson? paths)) ∧
      ∀ (calls : List (Call α)) (path : ℕ), path < paths →
        ∃ b, (callAll calls p).2.beliefs[path]? = some b := by
  let p : Constrained ρ α :=
    ⟨engineless, resource, 0, damping, List.replicate paths Belief.initial, rng⟩
  have hpaths : p.beliefs.length = paths := List.length_replicate
  refine ⟨p, new_eq_ok_iff.mpr ⟨hzero, hdamping, rfl⟩, taught_eq hpaths, fun calls path hpath => ?_⟩
  have hlength := (length_callAll calls _).trans hpaths
  exact ⟨_, List.getElem?_eq_getElem (hpath.trans_eq hlength.symm)⟩

end Start

end PathSelection.Constrained
