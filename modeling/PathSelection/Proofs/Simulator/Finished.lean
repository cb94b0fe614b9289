import PathSelection.Proofs.Simulator.Repetitions

namespace PathSelection

namespace Event

variable {α : Type}

/-- Whether a path is measured for a policy in a round. -/
def isMeasurement (policy round path : Nat) : Event α → Bool
  | .measured p t i _ => p = policy ∧ t = round ∧ i = path
  | _ => false

/-- Whether a round is valued for a policy. -/
def isReward (policy round : Nat) : Event α → Bool
  | .rewarded p t _ => p = policy ∧ t = round
  | _ => false

end Event

namespace Block

variable {α : Type} [Scalar α] {mode : RoundMode} {live : Bool} {P T k policy round path : Nat}
variable {blocks : List (Block α)} {repetitions : List (List (Block α))}

end Block

namespace Simulator

section Source

variable {σ α τ : Type} [MeasurementSource σ α] [Recorder τ α]

end Source

section Passes

variable {π σ ρ α : Type} [MeasurementSource σ α] {s s₁ s₂ : Simulator π σ ρ α}
variable {blocks more : List (Block α)}

/-- A turn that the run goes on after. Nothing is said of which paths it selects. -/
structure Passed (s : Simulator π σ ρ α) (b : Block α) (s' : Simulator π σ ρ α) : Prop where
  sameSetting : SameSetting s s'
  steered : Steered s.refreshAttempts b.selection.paths s.source b.feeds s'.source
  goes_on : s.forever = true → .exhausted ∉ b.feeds
  length_metrics : b.metrics.length = s.paths.length

/-- Turns one after another, that the run goes on after. -/
inductive Passes : Simulator π σ ρ α → List (Block α) → Simulator π σ ρ α → Prop
  | nil (s : Simulator π σ ρ α) : Passes s [] s
  | cons {s s₁ s₂ : Simulator π σ ρ α} {b : Block α} {blocks : List (Block α)}
      (hturn : Passed s b s₁) (hrest : Passes s₁ blocks s₂) : Passes s (b :: blocks) s₂

theorem Passes.append (h : Passes s blocks s₁) (hmore : Passes s₁ more s₂) :
    Passes s (blocks ++ more) s₂ := by
  induction h with
  | nil => exact hmore
  | cons hturn _ ih => exact .cons hturn (ih hmore)

theorem Passes.sameSetting (h : Passes s blocks s₁) : SameSetting s s₁ := by
  induction h with
  | nil s => exact .refl s
  | cons hturn _ ih => exact hturn.sameSetting.trans ih

theorem Passes.length_metrics (h : Passes s blocks s₁) :
    ∀ b ∈ blocks, b.metrics.length = s.paths.length := by
  induction h with
  | nil => simp
  | cons hturn _ ih =>
    rw [hturn.sameSetting.length_paths] at ih
    exact List.forall_mem_cons.mpr ⟨hturn.length_metrics, ih⟩

/-- As long as a run without an end goes on, each turn takes something from the script. -/
theorem Passes.length_le {s s' : Simulator π (Replay α) ρ α} {r : Replay α}
    {blocks : List (Block α)} (h : Passes s blocks s') (hsource : s.source = some r)
    (hforever : s.forever = true) (hattempts : 0 < s.refreshAttempts) :
    blocks.length ≤ r.script.length := by
  induction h generalizing r with
  | nil => exact Nat.zero_le _
  | @cons s s₁ s₂ b blocks hturn _ ih =>
    have hsame := hturn.sameSetting
    have hsteered := hturn.steered
    rw [hsource] at hsteered
    obtain ⟨r₁, hsource₁, -, hfetches, -⟩ := Replay.fetches_of_steered hsteered
    have hless := hfetches.length_lt hattempts (hturn.goes_on hforever)
    have hrest := ih hsource₁ (hsame.forever_eq.trans hforever)
      (hsame.refreshAttempts_eq ▸ hattempts)
    rw [List.length_cons]
    omega

end Passes

section Turn

variable {π σ ρ α τ : Type} [Scalar α] [RandomSource ρ α] [PathPolicy π α] [MeasurementSource σ α]
variable [Recorder τ α] {s s' : Simulator π σ ρ α} {log log' : τ} {policy round : Nat}

end Turn

section Loops

variable {π σ ρ α τ : Type} [Scalar α] [RandomSource ρ α] [PathPolicy π α] [MeasurementSource σ α]
variable [Recorder τ α] {s s₁ : Simulator π σ ρ α} {log log' : τ} {P : Nat}

end Loops

section Forever

variable {π ρ α τ : Type} [Scalar α] [RandomSource ρ α] [PathPolicy π α] [Recorder τ α]
variable {s s' : Simulator π (Replay α) ρ α} {log log' : τ}

end Forever

end Simulator

end PathSelection
