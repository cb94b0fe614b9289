import PathSelection.Proofs.Simulator.Turn
/-!
The turns of a run one after another. They are numbered through: with `P` policies, turn number `j`
is that of policy `j % P` in round `j / P`.
-/
namespace PathSelection

namespace Block

variable {α : Type} [Scalar α]

/-- A turn that selects `m` of `k` paths and measures all of them, after at least one request for a
snapshot if there is a source. -/
structure Complete (m k : Nat) (live : Bool) (b : Block α) : Prop where
  selects : Selects m k b.selection.paths
  length_metrics : b.metrics.length = k
  feeds_ne_nil : live = true → b.feeds ≠ []

/-- The events of turns one after another, from turn number `first` on. -/
def runEvents (mode : RoundMode) (live : Bool) (P : Nat) : Nat → List (Block α) → List (Event α)
  | _, [] => []
  | first, b :: blocks =>
    b.events mode live (first % P) (first / P) ++ runEvents mode live P (first + 1) blocks

theorem runEvents_append (mode : RoundMode) (live : Bool) (P first : Nat)
    (blocks more : List (Block α)) :
    runEvents mode live P first (blocks ++ more) =
      runEvents mode live P first blocks ++ runEvents mode live P (first + blocks.length) more := by
  induction blocks generalizing first with
  | nil => rfl
  | cons b blocks ih =>
    rw [List.cons_append, runEvents, ih, ← List.append_assoc, List.length_cons,
      Nat.add_right_comm first, Nat.add_assoc first]
    rfl

theorem runEvents_singleton (mode : RoundMode) (live : Bool) (P first : Nat) (b : Block α) :
    runEvents mode live P first [b] = b.events mode live (first % P) (first / P) :=
  List.append_nil _

/-- The events of turns one after another, and of one in which the run stops. -/
def stopEvents (mode : RoundMode) (live : Bool) (P first : Nat) (blocks : List (Block α))
    (selection : Selection α) (feeds : List FeedStatus) : List (Event α) :=
  runEvents mode live P first blocks ++
    opening mode live ((first + blocks.length) % P) ((first + blocks.length) / P) selection feeds

theorem stopEvents_nil (mode : RoundMode) (live : Bool) (P first : Nat) (selection : Selection α)
    (feeds : List FeedStatus) :
    stopEvents mode live P first [] selection feeds =
      opening mode live (first % P) (first / P) selection feeds := rfl

theorem stopEvents_append (mode : RoundMode) (live : Bool) (P first : Nat)
    (blocks more : List (Block α)) (selection : Selection α) (feeds : List FeedStatus) :
    stopEvents mode live P first (blocks ++ more) selection feeds =
      runEvents mode live P first blocks ++
        stopEvents mode live P (first + blocks.length) more selection feeds := by
  unfold stopEvents
  rw [runEvents_append, List.append_assoc, List.length_append, Nat.add_assoc]

end Block

namespace Simulator

variable {π σ ρ α τ : Type} {valid : π → Prop} {active : σ → Prop}
variable [Scalar α] [RandomSource ρ α] [PathPolicy π α] [MeasurementSource σ α] [Recorder τ α]
variable {s s₁ s₂ : Simulator π σ ρ α}

/-- Turns one after another, from turn number `first` on, of a run with `P` policies. -/
inductive Turns (P : Nat) :
    Nat → Simulator π σ ρ α → List (Block α) → Simulator π σ ρ α → Prop
  | nil (first : Nat) (s : Simulator π σ ρ α) : Turns P first s [] s
  | cons {first : Nat} {s s₁ s₂ : Simulator π σ ρ α} {b : Block α} {blocks : List (Block α)}
      (hturn : Turned (first % P) (first / P) s b s₁) (hturns : Turns P (first + 1) s₁ blocks s₂) :
      Turns P first s (b :: blocks) s₂

/-- Turns one after another, and then one in which the run stops. -/
def StopsAfter (P first : Nat) (s : Simulator π σ ρ α) (blocks : List (Block α))
    (selection : Selection α) (feeds : List FeedStatus) (s' : Simulator π σ ρ α) : Prop :=
  ∃ s₁, Turns P first s blocks s₁ ∧
    Stopped ((first + blocks.length) % P) ((first + blocks.length) / P) s₁ selection feeds s'

variable {P first : Nat} {blocks more : List (Block α)}

theorem Turned.sameSetting {policy round : Nat} {b : Block α} (h : Turned policy round s b s₁) :
    SameSetting s s₁ := h.steps.sameSetting

theorem Turns.sameSetting (h : Turns P first s blocks s₁) : SameSetting s s₁ := by
  induction h with
  | nil first s => exact .refl s
  | cons hturn _ ih => exact hturn.sameSetting.trans ih

theorem Turns.append (h : Turns P first s blocks s₁)
    (hmore : Turns P (first + blocks.length) s₁ more s₂) :
    Turns P first s (blocks ++ more) s₂ := by
  induction h with
  | nil => exact hmore
  | @cons first s s₁ s' b blocks hturn _ ih =>
    refine .cons hturn (ih ?_)
    rw [Nat.add_right_comm, Nat.add_assoc]
    exact hmore

theorem Turned.complete {policy round : Nat} {b : Block α} (h : Turned policy round s b s₁)
    (hattempts : 0 < s.refreshAttempts) :
    b.Complete s.plays s.paths.length s.source.isSome := by
  refine ⟨h.selects, ?_, h.steered.feeds_ne_nil hattempts⟩
  have hlength := congrArg (fun m => m.1.length) h.measured
  simpa [Path.measureAll] using hlength.symm

theorem Turns.complete (h : Turns P first s blocks s₁) (hattempts : 0 < s.refreshAttempts) :
    ∀ b ∈ blocks, b.Complete s.plays s.paths.length s.source.isSome := by
  induction h with
  | nil =>
    intro b hb
    exact absurd hb List.not_mem_nil
  | @cons first s s₁ s₂ b blocks hturn _ ih =>
    have hsame := hturn.sameSetting
    have hrest := ih (hsame.refreshAttempts_eq.symm ▸ hattempts)
    rw [hsame.plays_eq, hsame.length_paths, hsame.isSome_source] at hrest
    intro b' hb'
    rcases List.mem_cons.mp hb' with rfl | hb'
    · exact hturn.complete hattempts
    · exact hrest b' hb'

theorem Turns.steps (h : Turns P first s blocks s₁) :
    Steps s (Block.runEvents s.mode s.source.isSome P first blocks) s₁ := by
  induction h with
  | nil first s => exact .nil s
  | cons hturn _ ih =>
    rw [hturn.sameSetting.mode_eq, hturn.sameSetting.isSome_source] at ih
    exact hturn.steps.append ih

/-- A run without an end goes on only as long as its source is not exhausted. -/
theorem Turns.goes_on (h : Turns P first s blocks s₁) (hforever : s.forever = true) :
    ∀ b ∈ blocks, .exhausted ∉ b.feeds := by
  induction h with
  | nil =>
    intro b hb
    exact absurd hb List.not_mem_nil
  | cons hturn _ ih =>
    have hrest := ih (hturn.sameSetting.forever_eq.trans hforever)
    intro b hb
    rcases List.mem_cons.mp hb with rfl | hb
    · exact hturn.goes_on hforever
    · exact hrest b hb

theorem StopsAfter.append {selection : Selection α} {feeds : List FeedStatus}
    (hturns : Turns P first s blocks s₁)
    (h : StopsAfter P (first + blocks.length) s₁ more selection feeds s₂) :
    StopsAfter P first s (blocks ++ more) selection feeds s₂ := by
  obtain ⟨s', hmore, hstopped⟩ := h
  refine ⟨s', hturns.append hmore, ?_⟩
  rw [List.length_append, ← Nat.add_assoc]
  exact hstopped

theorem StopsAfter.steps {selection : Selection α} {feeds : List FeedStatus}
    (h : StopsAfter P first s blocks selection feeds s₁) :
    Steps s (Block.stopEvents s.mode s.source.isSome P first blocks selection feeds) s₁ := by
  obtain ⟨s', hturns, hstopped⟩ := h
  have hsteps := hstopped.steps
  rw [hturns.sameSetting.mode_eq, hturns.sameSetting.isSome_source] at hsteps
  exact hturns.steps.append hsteps

section Loops

variable (valid active) in
/-- A run that is ready, and whose policies and source cannot fail. -/
structure Safe (s : Simulator π σ ρ α) : Prop where
  policies : Reliable s.mode s.plays s.paths.length valid
  source : Responsive active
  ready : Ready valid active s

omit [RandomSource ρ α] in
theorem Safe.of_sameSetting (h : Safe valid active s) (hsame : SameSetting s s₁)
    (hready : Ready valid active s₁) : Safe valid active s₁ := by
  refine ⟨?_, h.source, hready⟩
  rw [hsame.mode_eq, hsame.plays_eq, hsame.length_paths]
  exact h.policies

omit [RandomSource ρ α] [MeasurementSource σ α] in
theorem new_eq_ok {paths : List (Path ρ α)} {policies : List π} {c : Config α} {source : Option σ}
    (h : new paths policies c source = .ok s) :
    s.paths = paths ∧ s.policies = policies ∧ s.plays = c.plays ∧ s.mode = c.mode ∧
      s.forever = c.forever ∧ s.refreshAttempts = Nat.max c.refreshAttempts 1 ∧
      s.source = source := by
  unfold new at h
  dsimp only at h
  split at h
  · exact absurd h (by simp)
  · split at h
    · exact absurd h (by simp)
    · obtain rfl := Except.ok.inj h
      exact ⟨rfl, rfl, rfl, rfl, rfl, rfl, rfl⟩

omit [RandomSource ρ α] in
/-- A new run over policies and a source that cannot fail. -/
theorem safe_new {paths : List (Path ρ α)} {policies : List π} {c : Config α} {source : Option σ}
    (hnew : new paths policies c source = .ok s)
    (hpolicies : Reliable c.mode c.plays paths.length valid) (hvalid : ∀ p ∈ policies, valid p)
    (hsource : Responsive active) (hactive : ∀ source', source = some source' → active source') :
    Safe valid active s := by
  obtain ⟨hpathsEq, hpoliciesEq, hplays, hmode, -, hattempts, hsourceEq⟩ := new_eq_ok hnew
  refine ⟨?_, hsource, ?_, ?_, ?_⟩
  · rw [hmode, hplays, hpathsEq]
    exact hpolicies
  · rw [hattempts]
    exact Nat.le_max_right _ 1
  · rw [hpoliciesEq]
    exact hvalid
  · rw [hsourceEq]
    exact hactive

theorem turns_cases (h : Safe valid active s) {P : Nat} (hP : s.policies.length = P)
    {policy count : Nat} (hcount : policy + count = P) (round : Nat) (log : τ) :
    (∃ blocks, ∃ s' : Simulator π σ ρ α, Turns P (round * P + policy) s blocks s' ∧
      blocks.length = count ∧ Safe valid active s' ∧
      turns round count policy s log = (.ok true, s', Recorder.recordAll
        (Block.runEvents s.mode s.source.isSome P (round * P + policy) blocks) log)) ∨
    ∃ blocks selection feeds, ∃ s' : Simulator π σ ρ α,
      StopsAfter P (round * P + policy) s blocks selection feeds s' ∧ blocks.length < count ∧
      turns round count policy s log = (.ok false, s', Recorder.recordAll
        (Block.stopEvents s.mode s.source.isSome P (round * P + policy) blocks selection feeds)
        log) := by
  -- By induction on the policies still to come: policy `policy` has turn number
  -- `round * P + policy`, so the numbers go on from one turn to the next.
  induction count generalizing s policy log with
  | zero => exact Or.inl ⟨[], s, .nil _ s, rfl, h, rfl⟩
  | succ count ih =>
    have hpolicy : policy < P := by omega
    obtain ⟨hmod, hdiv⟩ := (index_eq_iff round hpolicy).mpr rfl
    rcases turn_cases h.policies h.source h.ready (hP ▸ hpolicy) round log with
      ⟨b, s₁, hturned, hready₁, hturn⟩ | ⟨selection, feeds, s', hstopped, hturn⟩
    · have hsame := hturned.sameSetting
      have hchain : Turns P (round * P + policy) s [b] s₁ :=
        .cons (by rwa [hmod, hdiv]) (.nil _ s₁)
      have hevents : Block.runEvents s.mode s.source.isSome P (round * P + policy) [b] =
          b.events s.mode s.source.isSome policy round := by
        rw [Block.runEvents_singleton, hmod, hdiv]
      have hturns : turns round (count + 1) policy s log = turns round count (policy + 1) s₁
          (Recorder.recordAll (b.events s.mode s.source.isSome policy round) log) := by
        rw [turns, hturn]
      rcases ih (h.of_sameSetting hsame hready₁) (hsame.length_policies.trans hP)
        (show policy + 1 + count = P by omega)
        (Recorder.recordAll (b.events s.mode s.source.isSome policy round) log) with
        ⟨blocks, s₂, hmore, hlength, hsafe, heq⟩ |
          ⟨blocks, selection, feeds, s₂, hmore, hlength, heq⟩
      · refine Or.inl ⟨[b] ++ blocks, s₂, hchain.append hmore, ?_, hsafe, ?_⟩
        · rw [List.length_append, hlength, List.length_singleton, Nat.add_comm]
        · rw [hturns, heq, hsame.mode_eq, hsame.isSome_source, Block.runEvents_append,
            Recorder.recordAll_append, hevents]
          rfl
      · refine Or.inr ⟨[b] ++ blocks, selection, feeds, s₂, .append hchain hmore, ?_, ?_⟩
        · rw [List.length_append, List.length_singleton]
          omega
        · rw [hturns, heq, hsame.mode_eq, hsame.isSome_source, Block.stopEvents_append,
            Recorder.recordAll_append, hevents]
          rfl
    · have hstops : StopsAfter P (round * P + policy) s [] selection feeds s' :=
        ⟨s, .nil _ s, by rwa [List.length_nil, Nat.add_zero, hmod, hdiv]⟩
      refine Or.inr ⟨[], selection, feeds, s', hstops, Nat.succ_pos count, ?_⟩
      rw [turns, hturn, Block.stopEvents_nil, hmod, hdiv]

theorem rounds_cases (h : Safe valid active s) {P : Nat} (hP : s.policies.length = P)
    (count round : Nat) (log : τ) :
    (∃ blocks, ∃ s' : Simulator π σ ρ α, Turns P (round * P) s blocks s' ∧
      blocks.length = count * P ∧ Safe valid active s' ∧
      rounds count round s log = (.ok (.completed (round + count)), s', Recorder.recordAll
        (Block.runEvents s.mode s.source.isSome P (round * P) blocks) log)) ∨
    ∃ blocks selection feeds, ∃ s' : Simulator π σ ρ α,
      StopsAfter P (round * P) s blocks selection feeds s' ∧ blocks.length < count * P ∧
      rounds count round s log = (.ok (.exhausted ((round * P + blocks.length) / P)), s',
        Recorder.recordAll
          (Block.stopEvents s.mode s.source.isSome P (round * P) blocks selection feeds) log) := by
  -- By induction on the rounds still to come. A round that is complete has `P` turns, so the next
  -- one begins with turn number `(round + 1) * P`.
  induction count generalizing s round log with
  | zero => exact Or.inl ⟨[], s, .nil _ s, (Nat.zero_mul P).symm, h, rfl⟩
  | succ count ih =>
    have hcount : (count + 1) * P = P + count * P := by rw [Nat.succ_mul, Nat.add_comm]
    rcases turns_cases h hP (Nat.zero_add P) round log with
      ⟨blocks, s₁, hturns, hlength, hsafe, heq⟩ |
        ⟨blocks, selection, feeds, s', hstops, hlength, heq⟩
    · have hnext : (round + 1) * P = round * P + blocks.length := by rw [hlength, Nat.succ_mul]
      have hsame := hturns.sameSetting
      have hrounds : rounds (count + 1) round s log = rounds count (round + 1) s₁
          (Recorder.recordAll
            (Block.runEvents s.mode s.source.isSome P (round * P) blocks) log) := by
        rw [rounds, hP, heq]
        rfl
      rw [hrounds]
      rcases ih hsafe (hsame.length_policies.trans hP) (round + 1) (Recorder.recordAll
        (Block.runEvents s.mode s.source.isSome P (round * P) blocks) log) with
        ⟨more, s₂, hmore, hmoreLength, hsafe₂, hrest⟩ |
          ⟨more, selection, feeds, s₂, hmore, hmoreLength, hrest⟩
      · rw [hnext] at hmore hrest
        refine Or.inl ⟨blocks ++ more, s₂, Turns.append hturns hmore, ?_, hsafe₂, ?_⟩
        · rw [List.length_append, hlength, hmoreLength, hcount]
        · rw [hrest, hsame.mode_eq, hsame.isSome_source, Block.runEvents_append,
            Recorder.recordAll_append, Nat.add_right_comm, Nat.add_assoc]
      · rw [hnext] at hmore hrest
        refine Or.inr ⟨blocks ++ more, selection, feeds, s₂, .append hturns hmore, ?_, ?_⟩
        · rw [List.length_append, hlength, hcount]
          exact Nat.add_lt_add_left hmoreLength P
        · rw [hrest, hsame.mode_eq, hsame.isSome_source, Block.stopEvents_append,
            Recorder.recordAll_append, List.length_append, Nat.add_assoc]
    · refine Or.inr ⟨blocks, selection, feeds, s', hstops, by omega, ?_⟩
      have hround := ((index_eq_iff round hlength).mpr rfl).2
      rw [rounds, hP, heq, hround]
      rfl

omit [Recorder τ α] in
/-- A run without a source, or with an end, does not stop. -/
theorem StopsAfter.forever {selection : Selection α} {feeds : List FeedStatus}
    (h : StopsAfter P first s blocks selection feeds s₁) : s.forever = true := by
  obtain ⟨s', hturns, hstopped⟩ := h
  exact hturns.sameSetting.forever_eq.symm.trans hstopped.forever

/-- A run with an end makes all its turns. -/
theorem run_completes (h : Safe valid active s) (hforever : s.forever = false) (T : Nat)
    (log : τ) :
    ∃ blocks, ∃ s' : Simulator π σ ρ α, Turns s.policies.length 0 s blocks s' ∧
      blocks.length = T * s.policies.length ∧ Safe valid active s' ∧
      s.run T log = (.ok (.completed T), s', Recorder.recordAll
        (.began :: Block.runEvents s.mode s.source.isSome s.policies.length 0 blocks) log) := by
  have hrun : s.run T log = rounds T 0 s (Recorder.record (.began : Event α) log) := by
    unfold run roundCount
    rw [hforever]
    rfl
  rw [hrun]
  rcases rounds_cases h rfl T 0 (Recorder.record (.began : Event α) log) with
    ⟨blocks, s', hturns, hlength, hsafe, heq⟩ | ⟨blocks, selection, feeds, s', hstops, -, -⟩
  · rw [Nat.zero_mul] at hturns heq
    rw [Nat.zero_add] at heq
    exact ⟨blocks, s', hturns, hlength, hsafe, heq⟩
  · exact absurd (hforever.symm.trans hstops.forever) Bool.false_ne_true

/-- A run that stops makes the same turns if more rounds are allowed. -/
theorem rounds_of_exhausted {count round n : Nat} {log log' : τ}
    (h : rounds count round s log = (.ok (.exhausted n), s₁, log')) {count' : Nat}
    (hle : count ≤ count') : rounds count' round s log = (.ok (.exhausted n), s₁, log') := by
  induction count generalizing s round log count' with
  | zero =>
    obtain ⟨houtcome, -⟩ := Prod.mk.inj h
    exact absurd (Except.ok.inj houtcome) Outcome.noConfusion
  | succ count ih =>
    obtain ⟨count', rfl⟩ := Nat.exists_eq_add_of_le' hle
    rw [← Nat.add_assoc]
    unfold rounds at h ⊢
    split at h
    · exact absurd h (by simp)
    · exact h
    · next hturns =>
      exact ih h (Nat.le_add_left count count')

end Loops

end Simulator

end PathSelection
