import PathSelection.Policy.Any
import PathSelection.Proofs.Constrained.Reachable
import PathSelection.Proofs.Exp3.Reachable
import PathSelection.Proofs.KlUcb.Visits
import PathSelection.Random.ChaCha

namespace PathSelection

section Feedback

variable {α : Type} {paths : Nat} {selected : List Nat} {measurements : List (Metric α)}

/-- Why a feedback about `paths` paths is refused: there is not one measurement for each selected
path, or else some selected path does not exist, of which the first one is named. -/
inductive Refused (paths : Nat) (selected : List Nat) (measurements : List (Metric α)) :
    Error α → Prop
  | lengths (hlength : selected.length ≠ measurements.length) :
      Refused paths selected measurements
        (.lengthMismatch selected.length measurements.length)
  | missing (before : List Nat) (i : Nat) (after : List Nat)
      (hlength : selected.length = measurements.length)
      (hselected : selected = before ++ i :: after) (hbefore : ∀ j ∈ before, j < paths)
      (hi : paths ≤ i) : Refused paths selected measurements (.indexOutOfRange i paths)

/-- The first path that does not exist. -/
theorem find?_missing {i : Nat} :
    (selected.find? fun i => decide (paths ≤ i)) = some i ↔
      ∃ before after, selected = before ++ i :: after ∧ (∀ j ∈ before, j < paths) ∧ paths ≤ i := by
  rw [List.find?_eq_some_iff_append]
  simp only [decide_eq_true_eq, Bool.not_eq_true', decide_eq_false_iff_not, Nat.not_le]
  constructor
  · rintro ⟨hi, before, after, hselected, hbefore⟩
    exact ⟨before, after, hselected, hbefore, hi⟩
  · rintro ⟨before, after, hselected, hbefore, hi⟩
    exact ⟨hi, before, after, hselected, hbefore⟩

theorem checkFeedback_eq_error {e : Error α} :
    checkFeedback paths selected measurements = .error e ↔
      Refused paths selected measurements e := by
  unfold checkFeedback ensureSameLength
  by_cases hlength : selected.length = measurements.length
  · rw [if_pos hlength]
    dsimp only
    constructor
    · intro h
      split at h
      · next i hfind =>
        obtain ⟨before, after, hselected, hbefore, hi⟩ := find?_missing.mp hfind
        exact Except.error.inj h ▸ .missing before i after hlength hselected hbefore hi
      · exact absurd h (by simp)
    · intro h
      cases h with
      | lengths hne => exact absurd hlength hne
      | missing before i after _ hselected hbefore hi =>
        rw [find?_missing.mpr ⟨before, after, hselected, hbefore, hi⟩]
  · rw [if_neg hlength]
    constructor
    · intro h
      exact Except.error.inj h ▸ .lengths hlength
    · intro h
      cases h with
      | lengths => rfl
      | missing _ _ _ heq => exact absurd heq hlength

end Feedback

section Checked

variable {π κ α : Type} {available : π → Nat} {learned : π → κ} {p next : π} {m : Nat}
  {selected : List Nat} {measurements : List (Metric α)}

/-- What an operation that learns does in a state: it accepts a feedback that passes the check, and
then there are as many paths as before; else it answers the failure of the check and nothing
changes. -/
structure Learns (available : π → Nat) (selected : List Nat) (measurements : List (Metric α))
    (p : π) (answer : Except (Error α) Unit × π) : Prop where
  accepts : checkFeedback (available p) selected measurements = .ok () →
    answer.1 = .ok () ∧ available answer.2 = available p
  refuses : ∀ {e}, checkFeedback (available p) selected measurements = .error e →
    answer = (.error e, p)

/-- What an operation that selects does in a state: it fails without any change if there are too few
paths, and in any case it changes neither their number nor what was learned. -/
structure Decides (available : π → Nat) (learned : π → κ) (m : Nat) (p : π)
    (answer : Except (Error α) (Selection α) × π) : Prop where
  refuses : available p < m → answer = (.error (.tooManyPaths m (available p)), p)
  available_eq : available answer.2 = available p
  learned_eq : learned answer.2 = learned p

theorem Learns.of_checked (hnext : available next = available p) :
    Learns available selected measurements p
      (match checkFeedback (available p) selected measurements with
      | .error e => (.error e, p)
      | .ok () => (.ok (), next)) where
  accepts h := by
    rw [h]
    exact ⟨rfl, hnext⟩
  refuses h := by
    rw [h]

theorem Learns.available_eq {answer : Except (Error α) Unit × π}
    (h : Learns available selected measurements p answer) : available answer.2 = available p := by
  cases hcheck : checkFeedback (available p) selected measurements with
  | error e => rw [h.refuses hcheck]
  | ok => exact (h.accepts hcheck).2

theorem Decides.of_checked {answer : Except (Error α) (Selection α) × π}
    (havailable : available answer.2 = available p) (hlearned : learned answer.2 = learned p) :
    Decides available learned m p
      (match checkPlays m (available p) with
      | .error e => (.error e, p)
      | .ok () => answer) := by
  unfold checkPlays
  by_cases hmany : available p < m
  · rw [if_pos hmany]
    exact ⟨fun _ => rfl, rfl, rfl⟩
  · rw [if_neg hmany]
    exact ⟨fun h => absurd h hmany, havailable, hlearned⟩

/-- A policy of which some knowledge is looked at, in a state where all its operations check their
arguments first. -/
structure Checked [Scalar α] [PathPolicy π α] (learned : π → κ) (p : π) : Prop where
  learns : ∀ (mode : RoundMode) (selected : List Nat) (measurements : List (Metric α)),
    Learns PathPolicy.available selected measurements p (mode.update selected measurements p)
  decides : ∀ (mode : RoundMode) (m : Nat),
    Decides PathPolicy.available learned m p (mode.decide m p)

end Checked

namespace Thompson

variable {ρ α : Type} [Scalar α] [RandomSource ρ α]

theorem decides (p : Thompson ρ α) (m : Nat) :
    Decides PathPolicy.available Thompson.arms m p (p.decide m) :=
  .of_checked rfl rfl

theorem checked (p : Thompson ρ α) : Checked Thompson.arms p where
  learns mode selected measurements := by
    cases mode <;> exact .of_checked (length_foldl_modify _ _ (selected.zip measurements) p.arms)
  decides mode m := by
    cases mode <;> exact p.decides m

end Thompson

namespace KlUcb

variable {α : Type} [Scalar α]

theorem decides (p : KlUcb α) (m : Nat) :
    Decides PathPolicy.available KlUcb.tallies m p (p.decide m) := by
  refine .of_checked ?_ ?_ <;> split <;> rfl

theorem checked (p : KlUcb α) : Checked KlUcb.tallies p where
  learns mode selected measurements := by
    cases mode <;> exact .of_checked (length_foldl_modify _ _ (selected.zip measurements) p.tallies)
  decides mode m := by
    cases mode <;> exact p.decides m

end KlUcb

namespace Exp3

variable {ρ α : Type} [Scalar α] [DrawSource ρ α]

omit [DrawSource ρ α] in
theorem length_new {p : Exp3 ρ α} {paths : Nat} {gamma : α} {rng : ρ}
    (h : Exp3.new paths gamma rng = .ok p) : p.weights.length = paths := by
  unfold Exp3.new at h
  split at h
  · obtain rfl := Except.ok.inj h
    exact List.length_replicate
  · exact absurd h (by simp)

theorem decides (p : Exp3 ρ α) (m : Nat) :
    Decides PathPolicy.available Exp3.weights m p (p.decide m) := by
  have hweights := (kept_of_decide p m).2
  refine ⟨fun h => ?_, congrArg List.length hweights, hweights⟩
  unfold Exp3.decide checkPlays
  dsimp only
  rw [if_pos (show p.weights.length < m from h)]
  rfl

theorem checked (p : Exp3 ρ α) : Checked Exp3.weights p where
  learns mode selected measurements := by
    cases mode <;> exact .of_checked (length_grow (length_growths p selected measurements))
  decides mode m := by
    cases mode <;> exact p.decides m

end Exp3

namespace UniformChoice

variable {ρ α : Type} [Scalar α] [RandomSource ρ α]

theorem decides (p : UniformChoice ρ) (m : Nat) :
    Decides (PathPolicy.available (α := α)) (fun _ => ()) m p (p.decide m) :=
  .of_checked rfl rfl

theorem learns (p : UniformChoice ρ) (selected : List Nat) (measurements : List (Metric α)) :
    Learns (PathPolicy.available (α := α)) selected measurements p
      (p.update selected measurements) where
  accepts h := ⟨h, rfl⟩
  refuses h := congrArg (·, p) h

theorem checked (p : UniformChoice ρ) : Checked (α := α) (fun _ => ()) p where
  learns mode selected measurements := by
    cases mode <;> exact p.learns selected measurements
  decides mode m := by
    cases mode <;> exact p.decides m

end UniformChoice

namespace Constrained

variable {ρ α : Type} [Scalar α] [RandomSource ρ α]

theorem learns_updateAveraged (p : Constrained ρ α) (selected : List Nat)
    (measurements : List (Metric α)) :
    Learns PathPolicy.available selected measurements p (p.updateAveraged selected measurements) :=
  .of_checked (length_foldl_modify _ _ (selected.zip measurements) p.beliefs)

theorem learns_update (p : Constrained ρ α) (selected : List Nat) (measurements : List (Metric α)) :
    Learns PathPolicy.available selected measurements p (p.update selected measurements) :=
  .of_checked (length_learn p.resource BetaArm.observe (selected.zip measurements) p.beliefs p.rng)

theorem learns_updateDamped (p : Constrained ρ α) (selected : List Nat)
    (measurements : List (Metric α)) :
    Learns PathPolicy.available selected measurements p (p.updateDamped selected measurements) :=
  .of_checked ((length_forgetOthers _ _ _).trans (length_learn p.resource
    (BetaArm.observeDamped (1 - p.damping)) (selected.zip measurements) p.beliefs p.rng))

theorem beliefs_decideFrom (p : Constrained ρ α) (costs bandwidths : List α) (m : Nat)
    (origin : Note α) : (p.decideFrom costs bandwidths m origin).2.beliefs = p.beliefs := by
  obtain ⟨rng, hkept⟩ := decideFrom_snd costs bandwidths m origin p
  rw [hkept]

theorem decides (p : Constrained ρ α) (m : Nat) :
    Decides PathPolicy.available Constrained.beliefs m p (p.decide m) :=
  have hbeliefs := beliefs_decideFrom _ _ _ _ _
  .of_checked (congrArg List.length hbeliefs) hbeliefs

theorem decides_decideAveraged (p : Constrained ρ α) (m : Nat) :
    Decides PathPolicy.available Constrained.beliefs m p (p.decideAveraged m) :=
  have hbeliefs := beliefs_decideFrom _ _ _ _ _
  .of_checked (congrArg List.length hbeliefs) hbeliefs

theorem checked (p : Constrained ρ α) : Checked Constrained.beliefs p where
  learns mode selected measurements := by
    cases mode with
    | vanilla => exact p.learns_update selected measurements
    | damped => exact p.learns_updateDamped selected measurements
    | averaged => exact p.learns_updateAveraged selected measurements
  decides mode m := by
    cases mode with
    | vanilla | damped => exact p.decides m
    | averaged => exact p.decides_decideAveraged m

end Constrained

/-- What a policy has learned: all of its state but its parameters, its generator and what it keeps
of the last decision. -/
inductive Knowledge (α : Type) where
  | beliefs (beliefs : List (Belief α))
  | arms (arms : List (BetaArm α))
  | tallies (tallies : List (Tally α))
  | weights (weights : List α)
  | nothing

namespace Policy

variable {ρ α : Type}

/-- What a policy of any kind has learned. -/
def learned : Policy ρ α → Knowledge α
  | .constrained p => .beliefs p.beliefs
  | .thompson p => .arms p.arms
  | .klUcb p => .tallies p.tallies
  | .exp3 p => .weights p.weights
  | .uniform _ => .nothing

variable [Scalar α] [RandomSource ρ α]

/-- What is checked for a state of one kind of policy is checked for it as one of any kind. -/
theorem checked_wrap {π κ : Type} [PathPolicy π α] {wrap : π → Policy ρ α} {known : π → κ}
    (name : κ → Knowledge α) {p : π} (h : Checked known p)
    (havailable : ∀ q, PathPolicy.available (wrap q) = PathPolicy.available q)
    (hlearned : ∀ q, (wrap q).learned = name (known q))
    (hupdate : ∀ (mode : RoundMode) selected measurements,
      mode.update selected measurements (wrap p) =
        lift wrap (mode.update selected measurements p))
    (hdecide : ∀ (mode : RoundMode) m, mode.decide m (wrap p) = lift wrap (mode.decide m p)) :
    Checked learned (wrap p) where
  learns mode selected measurements := by
    have hop := h.learns mode selected measurements
    rw [hupdate]
    constructor
    · intro hcheck
      rw [havailable] at hcheck
      have haccepts := hop.accepts hcheck
      exact ⟨haccepts.1, by rw [havailable, ← haccepts.2]; exact havailable _⟩
    · intro e hcheck
      rw [havailable] at hcheck
      rw [hop.refuses hcheck]
      rfl
  decides mode m := by
    have hop := h.decides mode m
    rw [hdecide]
    refine ⟨fun hmany => ?_, ?_, ?_⟩
    · rw [havailable] at hmany ⊢
      rw [hop.refuses hmany]
      rfl
    · rw [havailable, ← hop.available_eq]
      exact havailable _
    · rw [hlearned, ← hop.learned_eq]
      exact hlearned _

theorem checked (p : Policy ρ α) : Checked learned p := by
  cases p with
  | constrained p =>
    refine checked_wrap .beliefs p.checked (fun _ => rfl) (fun _ => rfl) ?_ ?_
    all_goals intro mode; cases mode <;> intros <;> rfl
  | thompson p =>
    refine checked_wrap .arms p.checked (fun _ => rfl) (fun _ => rfl) ?_ ?_
    all_goals intro mode; cases mode <;> intros <;> rfl
  | klUcb p =>
    refine checked_wrap .tallies p.checked (fun _ => rfl) (fun _ => rfl) ?_ ?_
    all_goals intro mode; cases mode <;> intros <;> rfl
  | exp3 p =>
    refine checked_wrap .weights p.checked (fun _ => rfl) (fun _ => rfl) ?_ ?_
    all_goals intro mode; cases mode <;> intros <;> rfl
  | uniform p =>
    refine checked_wrap (fun _ => .nothing) p.checked (fun _ => rfl) (fun _ => rfl) ?_ ?_
    all_goals intro mode; cases mode <;> intros <;> rfl

/-- The states that a policy over some paths can reach by selecting and learning in any mode, also
when some of these fail. -/
inductive Reachable (paths : Nat) : Policy ρ α → Prop
  | constrained {p : Constrained ρ α} (engine : Lp.Engine α) (resource : Resource)
      (threshold damping : α) (rng : ρ)
      (h : Constrained.new engine resource paths threshold damping rng = .ok p) :
      Reachable paths (.constrained p)
  | thompson (alpha beta : α) (rng : ρ) :
      Reachable paths (.thompson (.withPrior paths alpha beta rng))
  | klUcb (leader : Bool) : Reachable paths (.klUcb (.new paths leader))
  | exp3 {p : Exp3 ρ α} (gamma : α) (rng : ρ) (h : Exp3.new paths gamma rng = .ok p) :
      Reachable paths (.exp3 p)
  | uniform (rng : ρ) : Reachable paths (.uniform ⟨paths, rng⟩)
  | decide {p : Policy ρ α} (mode : RoundMode) (m : Nat) (h : Reachable paths p) :
      Reachable paths (mode.decide m p).2
  | update {p : Policy ρ α} (mode : RoundMode) (selected : List Nat)
      (measurements : List (Metric α)) (h : Reachable paths p) :
      Reachable paths (mode.update selected measurements p).2

variable {paths : Nat} {p : Policy ρ α}

theorem Reachable.available_eq (h : Reachable paths p) : PathPolicy.available p = paths := by
  induction h with
  | constrained engine resource threshold damping rng h =>
    exact (Constrained.steady_new h).length_beliefs
  | thompson alpha beta rng => exact List.length_replicate
  | klUcb leader => exact KlUcb.length_new paths leader
  | exp3 gamma rng h => exact Exp3.length_new h
  | uniform rng => rfl
  | @decide p mode m _ ih => exact (p.checked.decides mode m).available_eq.trans ih
  | @update p mode selected measurements _ ih =>
    exact (p.checked.learns mode selected measurements).available_eq.trans ih

/-- The operations of a policy check their arguments before anything else, in every mode. What it
is to learn is refused for the lengths of the lists, or else for the first path that does not exist,
and then its state stays as it was, randomness included; so it does when too many paths are wanted.
A decision never changes what was learned. -/
theorem Reachable.refuses_unchanged (h : Reachable paths p) (mode : RoundMode) :
    (∀ selected measurements,
      ((mode.update selected measurements p).1 = .ok () ↔
        selected.length = measurements.length ∧ ∀ i ∈ selected, i < paths) ∧
      ∀ e, ((mode.update selected measurements p).1 = .error e ↔
          Refused paths selected measurements e) ∧
        ((mode.update selected measurements p).1 = .error e →
          (mode.update selected measurements p).2 = p)) ∧
    ∀ m, (paths < m → mode.decide m p = (.error (.tooManyPaths m paths), p)) ∧
      (mode.decide m p).2.learned = p.learned := by
  obtain rfl := h.available_eq
  refine ⟨fun selected measurements => ?_, fun m => ?_⟩
  · have hop := p.checked.learns mode selected measurements
    rw [← checkFeedback_eq_ok]
    simp only [← checkFeedback_eq_error]
    cases hcheck : checkFeedback (PathPolicy.available p) selected measurements with
    | ok =>
      rw [(hop.accepts hcheck).1]
      simp
    | error e =>
      rw [hop.refuses hcheck]
      simp
  · have hop := p.checked.decides mode m
    exact ⟨hop.refuses, hop.learned_eq⟩

/-- Of three paths one was selected before: a fourth path is refused wherever it comes, and so are
four paths at once. -/
theorem Reachable.refuses_unchanged_three :
    let p : Policy ChaCha Float := (RoundMode.vanilla.update [2] [⟨0.2, 0.9, 0⟩]
      (Policy.thompson (.withPrior 3 1 1 (ChaCha.ofSeed 7)))).2
    RoundMode.damped.update [1, 3, 5] [⟨0, 1, 0⟩, ⟨0, 1, 0⟩, ⟨0, 1, 0⟩] p =
        (.error (.indexOutOfRange 3 3), p) ∧
      RoundMode.averaged.decide 4 p = (.error (.tooManyPaths 4 3), p) ∧
      (RoundMode.vanilla.decide 2 p).2.learned = p.learned := by
  intro p
  have hreach : Reachable 3 p := .update .vanilla _ _ (.thompson 1 1 (ChaCha.ofSeed 7))
  obtain ⟨hupdate, -⟩ := hreach.refuses_unchanged .damped
  obtain ⟨-, hmany⟩ := hreach.refuses_unchanged .averaged
  obtain ⟨-, hkept⟩ := hreach.refuses_unchanged .vanilla
  obtain ⟨-, hrefused⟩ := hupdate [1, 3, 5] [⟨0, 1, 0⟩, ⟨0, 1, 0⟩, ⟨0, 1, 0⟩]
  obtain ⟨hwhy, hsame⟩ := hrefused (.indexOutOfRange 3 3)
  have herror := hwhy.mpr (.missing [1] 3 [5] rfl rfl (by decide) (by decide))
  exact ⟨Prod.ext herror (hsame herror), (hmany 4).1 (by decide), (hkept 2).2⟩

end Policy

end PathSelection
