import PathSelection.Proofs.Log.Counts
import PathSelection.Simulator

namespace PathSelection

namespace Simulator

variable {π σ ρ α : Type}

section Setting

variable {s s₁ s₂ : Simulator π σ ρ α}

/-- What two states of one run have in common. -/
structure SameSetting (s s' : Simulator π σ ρ α) : Prop where
  plays_eq : s'.plays = s.plays
  threshold_eq : s'.threshold = s.threshold
  mode_eq : s'.mode = s.mode
  forever_eq : s'.forever = s.forever
  refreshAttempts_eq : s'.refreshAttempts = s.refreshAttempts
  oracles_eq : s'.oracles = s.oracles
  length_paths : s'.paths.length = s.paths.length
  length_policies : s'.policies.length = s.policies.length
  isSome_source : s'.source.isSome = s.source.isSome

theorem SameSetting.refl (s : Simulator π σ ρ α) : SameSetting s s :=
  ⟨rfl, rfl, rfl, rfl, rfl, rfl, rfl, rfl, rfl⟩

theorem SameSetting.trans (h : SameSetting s s₁) (h₁ : SameSetting s₁ s₂) : SameSetting s s₂ where
  plays_eq := h₁.plays_eq.trans h.plays_eq
  threshold_eq := h₁.threshold_eq.trans h.threshold_eq
  mode_eq := h₁.mode_eq.trans h.mode_eq
  forever_eq := h₁.forever_eq.trans h.forever_eq
  refreshAttempts_eq := h₁.refreshAttempts_eq.trans h.refreshAttempts_eq
  oracles_eq := h₁.oracles_eq.trans h.oracles_eq
  length_paths := h₁.length_paths.trans h.length_paths
  length_policies := h₁.length_policies.trans h.length_policies
  isSome_source := h₁.isSome_source.trans h.isSome_source

theorem sameSetting_withPolicy (s : Simulator π σ ρ α) (policy : Nat) (p : π) :
    SameSetting s (s.withPolicy policy p) :=
  ⟨rfl, rfl, rfl, rfl, rfl, rfl, rfl, List.length_set, rfl⟩

theorem sameSetting_withSource {source : Option σ} (h : source.isSome = s.source.isSome) :
    SameSetting s { s with source := source } :=
  ⟨rfl, rfl, rfl, rfl, rfl, rfl, rfl, rfl, h⟩

theorem sameSetting_withPaths {paths : List (Path ρ α)} (h : paths.length = s.paths.length) :
    SameSetting s { s with paths := paths } :=
  ⟨rfl, rfl, rfl, rfl, rfl, rfl, h, rfl, rfl⟩

end Setting

variable [Scalar α] [RandomSource ρ α] [PathPolicy π α] [MeasurementSource σ α]

/-- What an event does to a run. Nothing is done when a selected path or a reward is recorded. -/
inductive Step : Simulator π σ ρ α → Event α → Simulator π σ ρ α → Prop
  | began (s : Simulator π σ ρ α) : Step s .began s
  | decided {s : Simulator π σ ρ α} {policy : Nat} {p p' : π} {selection : Selection α}
      (round : Nat) (hpolicy : s.policies[policy]? = some p)
      (hdecide : s.mode.decide s.plays p = (.ok selection, p')) :
      Step s (.decided policy round s.mode selection) (s.withPolicy policy p')
  | preferred {s : Simulator π σ ρ α} {source source' : σ} {paths : List Nat}
      (policy round : Nat) (hsource : s.source = some source)
      (hprefer : MeasurementSource.prefer paths source = (.ok (), source')) :
      Step s (.preferred policy round paths) { s with source := some source' }
  | refreshed {s : Simulator π σ ρ α} {source source' : σ} {status : FeedStatus}
      (policy round : Nat) (hsource : s.source = some source)
      (hrefresh : MeasurementSource.refresh source = (.ok status, source')) :
      Step s (.refreshed policy round status) { s with source := some source' }
  | measured {s : Simulator π σ ρ α} {path : Nat} {q : Path ρ α}
      (policy round : Nat) (hpath : s.paths[path]? = some q) :
      Step s (.measured policy round path (q.measure s.sample).1)
        { s with paths := s.paths.set path (q.measure s.sample).2 }
  | selected (s : Simulator π σ ρ α) (policy round path : Nat) :
      Step s (.selected policy round path) s
  | updated {s : Simulator π σ ρ α} {policy : Nat} {p p' : π} {paths : List Nat}
      {metrics : List (Metric α)} (round : Nat) (hpolicy : s.policies[policy]? = some p)
      (hupdate : s.mode.update paths metrics p = (.ok (), p')) :
      Step s (.updated policy round s.mode paths metrics) (s.withPolicy policy p')
  | rewarded (s : Simulator π σ ρ α) (policy round : Nat) (metrics : List (Metric α)) :
      Step s (.rewarded policy round (s.roundReward policy metrics)) s

/-- What the events of a list do to a run, one after another. -/
inductive Steps : Simulator π σ ρ α → List (Event α) → Simulator π σ ρ α → Prop
  | nil (s : Simulator π σ ρ α) : Steps s [] s
  | cons {s s₁ s₂ : Simulator π σ ρ α} {e : Event α} {events : List (Event α)}
      (hstep : Step s e s₁) (hsteps : Steps s₁ events s₂) : Steps s (e :: events) s₂

variable {s s₁ s₂ : Simulator π σ ρ α}

theorem Step.steps {e : Event α} (h : Step s e s₁) : Steps s [e] s₁ := .cons h (.nil s₁)

theorem Steps.append {events more : List (Event α)} (h : Steps s events s₁)
    (hmore : Steps s₁ more s₂) : Steps s (events ++ more) s₂ := by
  induction h with
  | nil => exact hmore
  | cons hstep _ ih => exact .cons hstep (ih hmore)

theorem Step.sameSetting {e : Event α} (h : Step s e s₁) : SameSetting s s₁ := by
  cases h with
  | began => exact .refl s
  | decided round hpolicy hdecide => exact sameSetting_withPolicy s _ _
  | preferred policy round hsource hprefer => exact sameSetting_withSource (by rw [hsource]; rfl)
  | refreshed policy round hsource hrefresh => exact sameSetting_withSource (by rw [hsource]; rfl)
  | measured policy round hpath => exact sameSetting_withPaths List.length_set
  | selected => exact .refl s
  | updated round hpolicy hupdate => exact sameSetting_withPolicy s _ _
  | rewarded => exact .refl s

theorem Steps.sameSetting {events : List (Event α)} (h : Steps s events s₁) :
    SameSetting s s₁ := by
  induction h with
  | nil s => exact .refl s
  | cons hstep _ ih => exact hstep.sameSetting.trans ih

end Simulator

end PathSelection
