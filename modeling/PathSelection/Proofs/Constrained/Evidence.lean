import Mathlib.Tactic.Linarith
import PathSelection.Proofs.Constrained.Learning
import PathSelection.Proofs.Extended

namespace PathSelection.Constrained

open Extended

/-- The largest parameter that trials can keep up when a share `d` of the evidence is lost at each
of them. -/
noncomputable def evidenceLimit (d : ℝ) : ℝ := max 1 ((1 - d) / d)

/-- What some trials leave of a posterior: if they were `plain`, nothing was ever forgotten, and if
they were `fading`, something was forgotten at each of them. -/
structure Evidence (limit : ℝ) (trials : ℕ) (plain fading : Prop) (arm : BetaArm Extended) :
    Prop where
  uses_eq : arm.uses = min trials countLimit
  parameters : ∃ a b : ℝ, arm.alpha = finite a ∧ arm.beta = finite b ∧ 1 ≤ a ∧ 1 ≤ b ∧
    (plain → a + b = 2 + trials) ∧ (fading → a ≤ limit ∧ b ≤ limit)

section Arms

variable {limit d : ℝ} {trials : ℕ} {plain fading : Prop} {arm : BetaArm Extended}

theorem Evidence.mono {plain' fading' : Prop} (h : Evidence limit trials plain fading arm)
    (hplain : plain' → plain) (hfading : fading' → fading) :
    Evidence limit trials plain' fading' arm := by
  obtain ⟨huses, a, b, ha, hb, ha1, hb1, hsum, hlimit⟩ := h
  exact ⟨huses, a, b, ha, hb, ha1, hb1, hsum ∘ hplain, hlimit ∘ hfading⟩

theorem one_le_evidenceLimit (d : ℝ) : 1 ≤ evidenceLimit d := le_max_left _ _

/-- At the limit a trial gains no more than what is lost. -/
theorem faded_le {a : ℝ} (hd : 0 < d) (hd1 : d < 1) (ha : a ≤ evidenceLimit d) :
    (1 - d) * (a + 1) ≤ evidenceLimit d := by
  have hgain : 1 - d ≤ d * evidenceLimit d := by
    rw [← div_le_iff₀' hd]
    exact le_max_right _ _
  calc (1 - d) * (a + 1) ≤ (1 - d) * (evidenceLimit d + 1) := by
        apply mul_le_mul_of_nonneg_left _ (by linarith)
        linarith
    _ = evidenceLimit d + (1 - d - d * evidenceLimit d) := by ring
    _ ≤ evidenceLimit d := by linarith

theorem evidence_uniform (d : ℝ) (plain fading : Prop) :
    Evidence (evidenceLimit d) 0 plain fading BetaArm.uniform where
  uses_eq := (Nat.zero_min countLimit).symm
  parameters := by
    refine ⟨1, 1, one_finite, one_finite, le_rfl, le_rfl, fun _ => ?_, fun _ => ?_⟩
    · norm_num
    · exact ⟨one_le_evidenceLimit d, one_le_evidenceLimit d⟩

theorem used_eq (huses : arm.uses = min trials countLimit) :
    arm.used = min (trials + 1) countLimit := by
  unfold BetaArm.used
  change min (arm.uses + 1) countLimit = _
  omega

theorem Evidence.observe (h : Evidence limit trials plain False arm) (success : Bool) :
    Evidence limit (trials + 1) plain False (arm.observe success) := by
  obtain ⟨huses, a, b, ha, hb, ha1, hb1, hsum, -⟩ := h
  have hused := used_eq huses
  unfold BetaArm.observe
  cases success with
  | true =>
    refine ⟨hused, a + 1, b, ?_, hb, by linarith, hb1, fun hplain => ?_, False.elim⟩
    · rw [if_pos rfl, ha, one_finite, add_finite]
    · push_cast
      linarith [hsum hplain]
  | false =>
    refine ⟨hused, a, b + 1, ha, ?_, ha1, by linarith, fun hplain => ?_, False.elim⟩
    · rw [if_neg Bool.false_ne_true, hb, one_finite, add_finite]
    · push_cast
      linarith [hsum hplain]

/-- What is kept of a parameter. -/
theorem faded_finite (a : ℝ) :
    Scalar.max (finite (1 - d) * finite a) 1 = finite (max ((1 - d) * a) 1) := by
  rw [mul_finite, one_finite, max_finite, Scalar.max_real]

theorem Evidence.observeDamped (hd1 : d < 1) (hd : fading → 0 < d)
    (h : Evidence (evidenceLimit d) trials False fading arm) (success : Bool) :
    Evidence (evidenceLimit d) (trials + 1) False fading
      (arm.observeDamped (finite (1 - d)) success) := by
  obtain ⟨huses, a, b, ha, hb, ha1, hb1, -, hlimit⟩ := h
  have hused := used_eq huses
  have hgained : ∀ x, fading → x ≤ evidenceLimit d →
      max ((1 - d) * (x + 1)) 1 ≤ evidenceLimit d := fun x hfading hx =>
    max_le (faded_le (hd hfading) hd1 hx) (one_le_evidenceLimit d)
  unfold BetaArm.observeDamped
  cases success with
  | true =>
    refine ⟨hused, max ((1 - d) * (a + 1)) 1, b, ?_, hb, le_max_right _ _, hb1, False.elim, ?_⟩
    · rw [if_pos rfl, ha, ← faded_finite, one_finite, add_finite]
    · intro hfading
      exact ⟨hgained a hfading (hlimit hfading).1, (hlimit hfading).2⟩
  | false =>
    refine ⟨hused, a, max ((1 - d) * (b + 1)) 1, ha, ?_, ha1, le_max_right _ _, False.elim, ?_⟩
    · rw [if_neg Bool.false_ne_true, hb, ← faded_finite, one_finite, add_finite]
    · intro hfading
      exact ⟨(hlimit hfading).1, hgained b hfading (hlimit hfading).2⟩

theorem Evidence.forget (hd0 : 0 ≤ d) (h : Evidence (evidenceLimit d) trials False fading arm) :
    Evidence (evidenceLimit d) trials False fading (arm.forget (finite (1 - d))) := by
  obtain ⟨huses, a, b, ha, hb, ha1, hb1, -, hlimit⟩ := h
  have hkept : ∀ x, 1 ≤ x → x ≤ evidenceLimit d → max ((1 - d) * x) 1 ≤ evidenceLimit d := by
    intro x hx hle
    apply max_le _ (one_le_evidenceLimit d)
    nlinarith
  refine ⟨huses, max ((1 - d) * a) 1, max ((1 - d) * b) 1, ?_, ?_, le_max_right _ _,
    le_max_right _ _, False.elim, fun hfading => ?_⟩
  · rw [← faded_finite, ← ha]
    rfl
  · rw [← faded_finite, ← hb]
    rfl
  · exact ⟨hkept a ha1 (hlimit hfading).1, hkept b hb1 (hlimit hfading).2⟩

end Arms

section Runs

/-- How many trials of a path were counted. -/
def trials {α : Type} (history : List (Lesson α)) (path : ℕ) : ℕ :=
  (measured [.vanilla, .damped] history path).length

/-- What the updates so far leave of the posterior of a path. -/
def EvidenceOf (d : ℝ) (history : List (Lesson Extended)) (path : ℕ) : BetaArm Extended → Prop :=
  Evidence (evidenceLimit d) (trials history path) (∀ lesson ∈ history, lesson.mode ≠ .damped)
    ((∀ lesson ∈ history, lesson.mode ≠ .vanilla) ∧ 0 < d)

variable {d : ℝ} {resource : Resource} {path : ℕ} {history : List (Lesson Extended)}
  {lesson : Lesson Extended} {before after : Belief Extended}

theorem trials_append {α : Type} (history : List (Lesson α)) (lesson : Lesson α) (path : ℕ) :
    trials (history ++ [lesson]) path = trials history path +
      if lesson.mode = .averaged then 0 else (about lesson.entries path).length := by
  unfold trials
  rw [measured_append, List.length_append]
  congr 1
  cases lesson.mode <;> rfl

/-- An update revises both posteriors of a path as its mode has it. -/
theorem evidenceOf_revises (hd0 : 0 ≤ d) (hd1 : d < 1)
    (hbefore : EvidenceOf d history path before.bandwidth ∧ EvidenceOf d history path before.cost)
    (h : Revises resource (finite (1 - d)) lesson.mode (about lesson.entries path) before after) :
    EvidenceOf d (history ++ [lesson]) path after.bandwidth ∧
      EvidenceOf d (history ++ [lesson]) path after.cost := by
  unfold EvidenceOf at hbefore ⊢
  simp only [List.forall_mem_append, List.forall_mem_singleton]
  rw [trials_append]
  generalize lesson.mode = mode at h ⊢
  generalize about lesson.entries path = metrics at h ⊢
  obtain ⟨hbandwidth, hcost⟩ := hbefore
  -- A plain update leaves nothing to show about fading, and a damped one nothing about the sum.
  cases h with
  | vanilla trials hlength =>
    rw [if_neg (by decide), ← hlength]
    obtain ⟨hbandwidth', hcost'⟩ := foldl_observe
      (P := fun n => Evidence (evidenceLimit d) n (∀ lesson ∈ history, lesson.mode ≠ .damped) False)
      (fun n arm success h => h.observe success) trials
      (hbandwidth.mono id False.elim) (hcost.mono id False.elim)
    exact ⟨hbandwidth'.mono And.left fun h => h.1.2 rfl, hcost'.mono And.left fun h => h.1.2 rfl⟩
  | damped trials hlength hne =>
    rw [if_neg (by decide), ← hlength]
    obtain ⟨hbandwidth', hcost'⟩ := foldl_observe
      (P := fun n => Evidence (evidenceLimit d) n False
        ((∀ lesson ∈ history, lesson.mode ≠ .vanilla) ∧ 0 < d))
      (fun n arm success h => h.observeDamped hd1 And.right success) trials
      (hbandwidth.mono False.elim id) (hcost.mono False.elim id)
    exact ⟨hbandwidth'.mono (fun h => h.2 rfl) fun h => ⟨h.1.1, h.2⟩,
      hcost'.mono (fun h => h.2 rfl) fun h => ⟨h.1.1, h.2⟩⟩
  | forgets =>
    have hforget : ∀ {arm}, EvidenceOf d history path arm →
        Evidence (evidenceLimit d) (trials history path) False
          ((∀ lesson ∈ history, lesson.mode ≠ .vanilla) ∧ 0 < d)
          (arm.forget (finite (1 - d))) := fun h => (h.mono False.elim id).forget hd0
    exact ⟨(hforget hbandwidth).mono (fun h => h.2 rfl) fun h => ⟨h.1.1, h.2⟩,
      (hforget hcost).mono (fun h => h.2 rfl) fun h => ⟨h.1.1, h.2⟩⟩
  | averaged =>
    obtain ⟨hbandwidth', hcost'⟩ := foldl_average_arms resource metrics before
    rw [hbandwidth', hcost']
    exact ⟨hbandwidth.mono And.left fun h => ⟨h.1.1, h.2⟩,
      hcost.mono And.left fun h => ⟨h.1.1, h.2⟩⟩

variable {ρ : Type} {engine : Lp.Engine Extended} {paths : ℕ}
  {threshold : Extended} {rng : ρ} {p : Constrained ρ Extended}

theorem damping_mem
    (hnew : Constrained.new engine resource paths threshold (finite d) rng = .ok p) :
    0 ≤ d ∧ d < 1 := by
  obtain ⟨-, hdamping, -⟩ := new_eq_ok_iff.mp hnew
  exact unit_finite.mp hdamping

variable [RandomSource ρ Extended]

/-- After any calls both posteriors of a path are what the updates leave of them. -/
theorem evidenceOf_callAll
    (hnew : Constrained.new engine resource paths threshold (finite d) rng = .ok p)
    (calls : List (Call Extended)) {b : Belief Extended}
    (hb : (callAll calls p).2.beliefs[path]? = some b) :
    EvidenceOf d (taught calls p) path b.bandwidth ∧ EvidenceOf d (taught calls p) path b.cost := by
  obtain ⟨hd0, hd1⟩ := damping_mem hnew
  refine belief_induction (P := fun history b =>
    EvidenceOf d history path b.bandwidth ∧ EvidenceOf d history path b.cost) ?_ ?_ hnew calls hb
  · exact ⟨evidence_uniform d _ _, evidence_uniform d _ _⟩
  · intro history lesson before after hbefore h
    rw [one_finite, sub_finite] at h
    exact evidenceOf_revises hd0 hd1 hbefore h

/-- After any calls, whatever was measured and whichever updates were accepted, no parameter of a
posterior is below one, and both posteriors of a path have counted its trials, up to the largest
count. The parameters sum to two more than the trials if no damped update was accepted, and none
exceeds the limit of the rate of forgetting if no plain one was. -/
theorem posteriors_bounded
    (hnew : Constrained.new engine resource paths threshold (finite d) rng = .ok p)
    (calls : List (Call Extended)) :
    (callAll calls p).2.beliefs.length = paths ∧
      ∀ path b, (callAll calls p).2.beliefs[path]? = some b → ∀ arm ∈ [b.bandwidth, b.cost],
        arm.uses = min (trials (taught calls p) path) (2 ^ 64 - 1) ∧
        ∃ alpha beta : ℝ, arm.alpha = finite alpha ∧ arm.beta = finite beta ∧
          1 ≤ alpha ∧ 1 ≤ beta ∧
          ((∀ lesson ∈ taught calls p, lesson.mode ≠ .damped) →
            alpha + beta = 2 + trials (taught calls p) path) ∧
          ((∀ lesson ∈ taught calls p, lesson.mode ≠ .vanilla) → 0 < d →
            alpha ≤ max 1 ((1 - d) / d) ∧ beta ≤ max 1 ((1 - d) / d)) := by
  refine ⟨(length_callAll calls p).trans (steady_new hnew).length_beliefs, ?_⟩
  intro path b hb arm harm
  obtain ⟨hbandwidth, hcost⟩ := evidenceOf_callAll hnew calls hb
  have hevidence : EvidenceOf d (taught calls p) path arm := by
    rcases List.mem_pair.mp harm with rfl | rfl
    · exact hbandwidth
    · exact hcost
  obtain ⟨huses, alpha, beta, halpha, hbeta, halpha1, hbeta1, hsum, hlimit⟩ := hevidence
  exact ⟨huses, alpha, beta, halpha, hbeta, halpha1, hbeta1, hsum,
    fun hplain hpos => hlimit ⟨hplain, hpos⟩⟩

end Runs

section Saturation

/-- Two paths at the rate one quarter: three plain trials of one path, one of them with a bandwidth
that is no number, and two damped trials in a run in which the other path is only forgotten. A
feedback about a third path is refused. -/
theorem posteriors_bounded_quarter :
    let plain : List (Call Extended) :=
      [.update .vanilla [0, 0] [⟨0, undefined, 0⟩, ⟨0, infinite false, 0⟩], .decide .vanilla 1,
        .update .damped [2] [⟨0, 0, 0⟩], .update .averaged [0] [⟨1, 1, 0⟩],
        .update .vanilla [1, 0] [⟨0, 0, 0⟩, ⟨0, 1, 0⟩]]
    let fading : List (Call Extended) :=
      [.update .damped [0, 0] [⟨0, 1, 0⟩, ⟨0, 1, 0⟩], .update .damped [] []]
    ∃ p, Constrained.new engineless .latency 2 0 (finite (1 / 4)) zeros = .ok p ∧
      (∃ b alpha beta, (callAll plain p).2.beliefs[0]? = some b ∧
        b.cost.uses = 3 ∧ b.bandwidth.alpha = finite alpha ∧ b.bandwidth.beta = finite beta ∧
        alpha + beta = 5) ∧
      ∃ b alpha, (callAll fading p).2.beliefs[1]? = some b ∧
        b.cost.uses = 0 ∧ b.cost.alpha = finite alpha ∧ 1 ≤ alpha ∧ alpha ≤ 3 := by
  intro plain fading
  have hdamping : 0 ≤ finite (1 / 4) ∧ finite (1 / 4) < 1 := unit_finite.mpr (by norm_num)
  obtain ⟨p, hnew, htaught, hbelief⟩ := exists_new rfl hdamping .latency 2 zeros
  refine ⟨p, hnew, ?_, ?_⟩
  · have hlessons : taught plain p =
        [⟨.vanilla, [(0, ⟨0, undefined, 0⟩), (0, ⟨0, infinite false, 0⟩)]⟩,
          ⟨.averaged, [(0, ⟨1, 1, 0⟩)]⟩, ⟨.vanilla, [(1, ⟨0, 0, 0⟩), (0, ⟨0, 1, 0⟩)]⟩] :=
      htaught plain
    obtain ⟨b, hb⟩ := hbelief plain 0 (by decide)
    obtain ⟨-, hall⟩ := posteriors_bounded hnew plain
    obtain ⟨huses, -⟩ := hall 0 b hb b.cost (by simp)
    obtain ⟨-, alpha, beta, halpha, hbeta, -, -, hsum, -⟩ := hall 0 b hb b.bandwidth (by simp)
    rw [hlessons] at huses hsum
    have hthree : alpha + beta = 2 + (3 : ℕ) := hsum (by simp)
    exact ⟨b, alpha, beta, hb, huses, halpha, hbeta, hthree.trans (by norm_num)⟩
  · have hlessons : taught fading p =
        [⟨.damped, [(0, ⟨0, 1, 0⟩), (0, ⟨0, 1, 0⟩)]⟩, ⟨.damped, []⟩] :=
      htaught fading
    obtain ⟨b, hb⟩ := hbelief fading 1 (by decide)
    obtain ⟨-, hall⟩ := posteriors_bounded hnew fading
    obtain ⟨huses, alpha, beta, halpha, -, halpha1, -, -, hlimit⟩ := hall 1 b hb b.cost (by simp)
    rw [hlessons] at huses hlimit
    have hthree : alpha ≤ max 1 ((1 - 1 / 4) / (1 / 4)) :=
      (hlimit (by simp) (by norm_num)).1
    refine ⟨b, alpha, hb, huses, halpha, halpha1, hthree.trans (max_le ?_ ?_)⟩ <;> norm_num

theorem trials_replicate {α : Type} {lesson : Lesson α} (h : lesson.mode ≠ .averaged) (n path : ℕ) :
    trials (List.replicate n lesson) path = n * (about lesson.entries path).length := by
  have hmode : lesson.mode ∈ [RoundMode.vanilla, .damped] := by
    cases hmode : lesson.mode with
    | vanilla | damped => decide
    | averaged => exact absurd hmode h
  unfold trials measured
  rw [List.length_flatMap, List.map_replicate, List.sum_replicate, if_pos hmode, smul_eq_mul]

/-- Any number of plain trials of one path. -/
theorem evidence_replicate (n : ℕ) :
    let calls : List (Call Extended) := List.replicate n (.update .vanilla [0] [⟨0, 0, 0⟩])
    ∃ p, Constrained.new engineless .latency 1 0 (finite 0) zeros = .ok p ∧
      trials (taught calls p) 0 = n ∧
      ∃ b alpha beta, (callAll calls p).2.beliefs[0]? = some b ∧
        b.bandwidth.uses = min n countLimit ∧ b.cost.uses = min n countLimit ∧
        b.bandwidth.alpha = finite alpha ∧ b.bandwidth.beta = finite beta ∧
        alpha + beta = 2 + n := by
  intro calls
  obtain ⟨p, hnew, htaught, hbelief⟩ :=
    exists_new rfl (unit_finite.mpr ⟨le_rfl, one_pos⟩) .latency 1 zeros
  have hlessons : taught calls p = List.replicate n ⟨.vanilla, [(0, ⟨0, 0, 0⟩)]⟩ := by
    rw [htaught]
    exact List.filterMap_replicate_of_some rfl
  have htrials : trials (taught calls p) 0 = n := by
    rw [hlessons, trials_replicate (by decide)]
    exact Nat.mul_one n
  obtain ⟨b, hb⟩ := hbelief calls 0 one_pos
  obtain ⟨⟨huses, alpha, beta, halpha, hbeta, -, -, hsum, -⟩, hcost⟩ :=
    evidenceOf_callAll hnew calls hb
  have hcost' := hcost.uses_eq
  rw [htrials] at huses hsum hcost'
  refine ⟨p, hnew, htrials, b, alpha, beta, hb, huses, hcost', halpha, hbeta,
    hsum fun lesson hlesson => ?_⟩
  rw [hlessons] at hlesson
  rw [List.eq_of_mem_replicate hlesson]
  decide

/-- After one trial more than the largest count, both counts stay behind the trials, but the
parameters do not. -/
theorem uses_saturate :
    let calls : List (Call Extended) :=
      List.replicate (2 ^ 64) (.update .vanilla [0] [⟨0, 0, 0⟩])
    ∃ p, Constrained.new engineless .latency 1 0 (finite 0) zeros = .ok p ∧
      trials (taught calls p) 0 = 2 ^ 64 ∧
      ∃ b alpha beta, (callAll calls p).2.beliefs[0]? = some b ∧
        b.bandwidth.uses = 2 ^ 64 - 1 ∧ b.cost.uses = 2 ^ 64 - 1 ∧
        b.bandwidth.alpha = finite alpha ∧ b.bandwidth.beta = finite beta ∧
        alpha + beta ≠ 2 + b.bandwidth.uses := by
  obtain ⟨p, hnew, htrials, b, alpha, beta, hb, hbandwidth, hcost, halpha, hbeta, hsum⟩ :=
    evidence_replicate (2 ^ 64)
  have hfull : min (2 ^ 64) countLimit = 2 ^ 64 - 1 := by decide
  refine ⟨p, hnew, htrials, b, alpha, beta, hb, hbandwidth.trans hfull, hcost.trans hfull, halpha,
    hbeta, ?_⟩
  rw [hsum, hbandwidth.trans hfull]
  norm_num

end Saturation

end PathSelection.Constrained
