import Mathlib.Analysis.SpecialFunctions.Log.Deriv
import Mathlib.Logic.Relation
import PathSelection.Proofs.Exp3.Growth
import PathSelection.Proofs.Extended

namespace PathSelection.Exp3

variable {ρ : Type}

/-- A call of a policy, that succeeds or fails. -/
inductive Step {α : Type} [Scalar α] [DrawSource ρ α] : Exp3 ρ α → Exp3 ρ α → Prop
  | decide (p : Exp3 ρ α) (m : ℕ) : Step p (p.decide m).2
  | update (p : Exp3 ρ α) (selected : List ℕ) (measurements : List (Metric α)) :
      Step p (p.update selected measurements).2

/-- Weights between the floor and the limit. -/
def Within (weights : List ℝ) : Prop := ∀ w ∈ weights, weightFloor ≤ w ∧ w ≤ weightLimit

section Grow

variable {exponents weights : List ℝ} {top : ℝ}

theorem weightFloor_le_one : (weightFloor : ℝ) ≤ 1 := by
  unfold weightFloor
  norm_num

theorem one_le_weightLimit : (1 : ℝ) ≤ weightLimit := by
  unfold weightLimit
  norm_num

theorem largest?_of_rescaling? {xs : List ℝ} (h : rescaling? xs = some top) :
    largest? xs = some top := by
  unfold rescaling? at h
  cases hlargest : largest? xs with
  | none => simp [hlargest] at h
  | some l =>
    simp only [hlargest] at h
    split at h
    · exact h
    · exact absurd h (Option.some_ne_none top).symm

/-- Nothing that is written exceeds the limit: without a rescaling no logarithm does, and with one
the largest of them becomes zero. -/
theorem shifted_le (l : ℝ) (hl : l ∈ grownLogs exponents weights) :
    l - (rescaling? (grownLogs exponents weights)).getD 0 ≤ Real.log weightLimit := by
  cases hscale : rescaling? (grownLogs exponents weights) with
  | some top =>
    have htop := le_largest? (largest?_of_rescaling? hscale) l hl
    rw [Option.getD_some]
    exact (sub_nonpos.mpr htop).trans (Real.log_nonneg one_le_weightLimit)
  | none =>
    rw [Option.getD_none, sub_zero]
    unfold rescaling? at hscale
    obtain ⟨top, hlargest⟩ := exists_largest? hl
    simp only [hlargest] at hscale
    split at hscale
    · exact absurd hscale (Option.some_ne_none top)
    · next hlimit => exact (le_largest? hlargest l hl).trans (not_lt.mp hlimit)

theorem grownLogs_getD_mem (hlen : exponents.length = weights.length) {i : ℕ}
    (hi : i < weights.length) :
    (grownLogs exponents weights).getD i 0 ∈ grownLogs exponents weights := by
  have hlogs : i < (grownLogs exponents weights).length := by
    rw [grownLogs, List.length_zipWith]
    omega
  rw [List.getD_eq_getElem _ 0 hlogs]
  exact List.getElem_mem hlogs

theorem within_grow (hlen : exponents.length = weights.length) (h : Within weights) :
    Within (grow exponents weights) := by
  unfold Within at h ⊢
  rw [forall_mem_iff_getD] at h ⊢
  intro i hi
  rw [length_grow hlen] at hi
  rw [getD_grow hlen hi]
  split
  · exact h i hi
  · have hlog := shifted_le _ (grownLogs_getD_mem hlen hi)
    have hexp := Real.exp_le_exp.mpr hlog
    rw [Real.exp_log (one_pos.trans_le one_le_weightLimit)] at hexp
    exact ⟨le_max_right _ _, max_le hexp (weightFloor_le_one.trans one_le_weightLimit)⟩

/-- A rescaling turns the largest weight into one, which the floor does not change. -/
theorem grow_of_rescaling (hlen : exponents.length = weights.length)
    (h : rescaling? (grownLogs exponents weights) = some top) :
    1 ∈ grow exponents weights ∧ ∀ w ∈ grow exponents weights, w ≤ 1 := by
  have hlargest := largest?_of_rescaling? h
  have hwrite : ∀ i < weights.length, (grow exponents weights).getD i 0 =
      max (Real.exp ((grownLogs exponents weights).getD i 0 - top)) weightFloor := by
    intro i hi
    rw [getD_grow hlen hi, h, if_neg fun hnone => Option.some_ne_none top hnone.1]
    rfl
  constructor
  · obtain ⟨i, hi, htop⟩ := List.mem_iff_getElem.mp (largest?_mem hlargest)
    have hi' : i < weights.length := by
      rw [grownLogs, List.length_zipWith] at hi
      omega
    have hone : (grow exponents weights).getD i 0 = 1 := by
      rw [hwrite i hi', List.getD_eq_getElem _ 0 hi, htop, sub_self, Real.exp_zero]
      exact max_eq_left weightFloor_le_one
    rw [← length_grow hlen] at hi'
    rw [← hone, List.getD_eq_getElem _ 0 hi']
    exact List.getElem_mem hi'
  · rw [forall_mem_iff_getD]
    intro i hi
    rw [length_grow hlen] at hi
    rw [hwrite i hi]
    apply max_le _ weightFloor_le_one
    apply Real.exp_le_one_iff.mpr
    exact sub_nonpos.mpr (le_largest? hlargest _ (grownLogs_getD_mem hlen hi))

end Grow

section Finite

open Extended

variable {exponents weights : List ℝ}

theorem largest?_finite (xs : List ℝ) :
    largest? (xs.map finite) = (largest? xs).map finite := by
  cases xs with
  | nil => rfl
  | cons x xs =>
    have hfold : (xs.map finite).foldl Scalar.max (finite x) =
        finite (xs.foldl Scalar.max x) := by
      rw [List.foldl_map]
      exact List.foldl_hom finite fun a b => max_finite
    exact congrArg some hfold

theorem rescaling?_finite (xs : List ℝ) :
    rescaling? (xs.map finite) = (rescaling? xs).map finite := by
  have hlimit : Scalar.log (weightLimit : Extended) = finite (Scalar.log weightLimit) :=
    log_finite (one_pos.trans_le one_le_weightLimit)
  unfold rescaling?
  rw [largest?_finite, hlimit]
  cases largest? xs with
  | none => rfl
  | some top =>
    simp only [Option.map_some, lt_finite]
    split <;> rfl

theorem logs_finite (hpos : ∀ w ∈ weights, 0 < w) :
    List.zipWith (fun w e => Scalar.log w + e) (weights.map finite) (exponents.map finite) =
      (grownLogs exponents weights).map finite := by
  unfold grownLogs
  rw [List.zipWith_map, List.map_zipWith]
  apply List.ext_getElem
  · simp
  intro i hi hi'
  rw [List.getElem_zipWith, List.getElem_zipWith, log_finite (hpos _ (List.getElem_mem _)),
    add_finite]
  rfl

theorem grow_finite (hpos : ∀ w ∈ weights, 0 < w) :
    grow (exponents.map finite) (weights.map finite) = (grow exponents weights).map finite := by
  have hwrite : ∀ l shift : ℝ,
      Scalar.max (Scalar.exp (finite l - finite shift)) weightFloor =
        finite (Scalar.max (Scalar.exp (l - shift)) weightFloor) := by
    intro l shift
    rw [sub_finite, exp_finite]
    exact max_finite
  have hlogs : List.zipWith (fun w e => Scalar.log w + e) weights exponents =
      grownLogs exponents weights := rfl
  unfold grow
  simp only [logs_finite hpos, rescaling?_finite, hlogs]
  cases rescaling? (grownLogs exponents weights) with
  | some top =>
    simp only [Option.map_some, List.map_map]
    exact List.map_congr_left fun l _ => hwrite l top
  | none =>
    simp only [Option.map_none]
    apply List.ext_getElem
    · simp
    intro i hi hi'
    simp only [List.getElem_zipWith, List.getElem_zip, List.getElem_map, zero_finite, beq_finite,
      Scalar.zero_real, hwrite]
    split <;> rfl

end Finite

section Policy

open Extended

variable {p q : Exp3 ρ Extended}

/-- What all states of a policy have in common: the rate of exploration is a real number, and so are
the weights, between the floor and the limit. -/
structure Bounded (paths : ℕ) (p : Exp3 ρ Extended) : Prop where
  gamma_finite : ∃ gamma, p.gamma = finite gamma
  weights_finite : ∃ weights : List ℝ,
    p.weights = weights.map finite ∧ weights.length = paths ∧ Within weights

theorem eq_finite_of_growth {plays path : ℕ} {bandwidth e : Extended}
    (hgamma : ∃ gamma, p.gamma = finite gamma) (hpaths : p.weights.length ≠ 0)
    (h : p.growth plays path bandwidth = some e) : ∃ x, e = finite x := by
  unfold growth at h
  dsimp only at h
  rw [Option.ite_none_right_eq_some, Bool.and_eq_true, Bool.and_eq_true, decide_eq_true_eq] at h
  obtain ⟨⟨⟨-, hprobability⟩, hbandwidth⟩, he⟩ := h
  obtain ⟨b, rfl⟩ := eq_finite_of_isFinite hbandwidth
  obtain ⟨gamma, hgamma⟩ := hgamma
  obtain ⟨z, hz⟩ := div_finite_of_pos b hprobability
  have hcount : ((p.weights.length : ℕ) : ℝ) ≠ 0 := Nat.cast_ne_zero.mpr hpaths
  rw [← Option.some.inj he, hgamma, hz]
  exact ⟨_, div_finite hcount⟩

/-- The measurements that teach nothing leave a growth of zero, and all others are finite. -/
theorem growths_finite {selected : List ℕ} (measurements : List (Metric Extended))
    (hgamma : ∃ gamma, p.gamma = finite gamma) (hselected : ∀ i ∈ selected, i < p.weights.length) :
    ∃ exponents : List ℝ, p.growths selected measurements = exponents.map finite := by
  unfold growths
  apply List.foldlRecOn (motive := fun es => ∃ exponents : List ℝ, es = exponents.map finite)
  · refine ⟨List.replicate p.weights.length 0, ?_⟩
    rw [List.map_replicate, zero_finite]
  · -- One measurement writes one growth, or none.
    rintro es ⟨exponents, rfl⟩ ⟨path, metric⟩ hpair
    have hpath := hselected path (List.of_mem_zip hpair).1
    dsimp only
    cases hgrowth : p.growth selected.length path metric.bandwidth with
    | none => exact ⟨exponents, rfl⟩
    | some e =>
      obtain ⟨x, rfl⟩ := eq_finite_of_growth hgamma (Nat.ne_zero_of_lt hpath) hgrowth
      exact ⟨exponents.set path x, List.map_set.symm⟩

/-- An update of bounded weights grows them as real numbers. -/
theorem Bounded.growths {paths : ℕ} (h : Bounded paths p) {selected : List ℕ}
    {measurements : List (Metric Extended)}
    (hcheck : (checkFeedback p.weights.length selected measurements :
      Except (Error Extended) Unit) = .ok ()) :
    ∃ exponents weights : List ℝ, exponents.length = weights.length ∧ weights.length = paths ∧
      Within weights ∧ p.weights = weights.map finite ∧
      p.growths selected measurements = exponents.map finite ∧
      (p.update selected measurements).2.weights = (grow exponents weights).map finite := by
  obtain ⟨weights, hweights, hpaths, hwithin⟩ := h.weights_finite
  obtain ⟨-, hselected⟩ := checkFeedback_eq_ok.mp hcheck
  obtain ⟨exponents, hexponents⟩ := growths_finite measurements h.gamma_finite hselected
  have hlen : exponents.length = weights.length := by
    have hgrowths := length_growths p selected measurements
    rw [hexponents, hweights, List.length_map, List.length_map] at hgrowths
    exact hgrowths
  have hpos : ∀ w ∈ weights, 0 < w := fun w hw => weightFloor_pos.trans_le (hwithin w hw).1
  refine ⟨exponents, weights, hlen, hpaths, hwithin, hweights, hexponents, ?_⟩
  unfold Exp3.update
  rw [hcheck]
  dsimp only
  rw [hexponents, hweights]
  exact grow_finite hpos

/-- Bandwidths that are no real numbers teach nothing. -/
theorem growths_of_not_finite {α : Type} [Scalar α] (p : Exp3 ρ α) (selected : List ℕ)
    {measurements : List (Metric α)}
    (h : ∀ metric ∈ measurements, Scalar.isFinite metric.bandwidth = false) :
    p.growths selected measurements = List.replicate p.weights.length 0 := by
  unfold growths
  apply List.foldlRecOn
    (motive := fun exponents => exponents = List.replicate p.weights.length (0 : α))
  · rfl
  · rintro exponents hexponents ⟨path, metric⟩ hpair
    have hbandwidth := h metric (List.of_mem_zip hpair).2
    have hgrowth : p.growth selected.length path metric.bandwidth = none := by
      unfold growth
      dsimp only
      rw [hbandwidth, Bool.and_false]
      rfl
    dsimp only
    rw [hgrowth]
    exact hexponents

theorem bounded_new {paths : ℕ} {gamma : Extended} {rng : ρ}
    (h : Exp3.new paths gamma rng = .ok p) : Bounded paths p := by
  unfold Exp3.new at h
  split at h
  case isFalse => exact absurd h (by simp)
  next hgamma =>
  obtain rfl := Except.ok.inj h
  refine ⟨?_, List.replicate paths 1, ?_, List.length_replicate, fun w hw => ?_⟩
  · rw [zero_finite, one_finite] at hgamma
    cases gamma with
    | finite g => exact ⟨g, rfl⟩
    | infinite s => cases s <;> exact absurd hgamma (by rintro ⟨⟨h0, h0'⟩, h1, h1'⟩; trivial)
    | undefined => exact absurd hgamma.1.1 id
  · rw [List.map_replicate]
    exact congrArg _ one_finite
  · rw [List.eq_of_mem_replicate hw]
    exact ⟨weightFloor_le_one, one_le_weightLimit⟩

variable [DrawSource ρ Extended]

theorem Bounded.step {paths : ℕ} (h : Bounded paths p) (hstep : Step p q) : Bounded paths q := by
  cases hstep with
  | decide m =>
    obtain ⟨hgamma, hweights⟩ := kept_of_decide p m
    exact ⟨hgamma ▸ h.gamma_finite, hweights ▸ h.weights_finite⟩
  | update selected measurements =>
    cases hcheck :
      (checkFeedback p.weights.length selected measurements : Except (Error Extended) Unit) with
    | error e =>
      unfold Exp3.update
      rw [hcheck]
      exact h
    | ok u =>
      -- The probabilities and the cap may be those of any earlier decision: only their signs count.
      obtain ⟨exponents, weights, hlen, hpaths, hwithin, -, -, hupdate⟩ := h.growths hcheck
      have hgamma : (p.update selected measurements).2.gamma = p.gamma := by
        unfold Exp3.update
        rw [hcheck]
      exact ⟨hgamma ▸ h.gamma_finite, grow exponents weights, hupdate,
        (length_grow hlen).trans hpaths, within_grow hlen hwithin⟩

theorem bounded_of_run {paths : ℕ} {gamma : Extended} {rng : ρ}
    (hnew : Exp3.new paths gamma rng = .ok p) (hrun : Relation.ReflTransGen Step p q) :
    Bounded paths q := by
  induction hrun with
  | refl => exact bounded_new hnew
  | tail _ hstep ih => exact ih.step hstep

/-- After any calls, whatever was selected and measured and whether they succeeded or not, each
weight lies between the floor and the limit. An update that rescales the weights makes the largest
one exactly one. -/
theorem weights_bounded {paths : ℕ} {gamma : Extended} {rng : ρ}
    (hnew : Exp3.new paths gamma rng = .ok p) (hrun : Relation.ReflTransGen Step p q) :
    q.weights.length = paths ∧
      (∀ w ∈ q.weights, ∃ x : ℝ, w = finite x ∧ 1e-100 ≤ x ∧ x ≤ 1e100) ∧
      ∀ (selected : List ℕ) (measurements : List (Metric Extended)),
        (q.update selected measurements).1 = .ok () →
        rescaling? (List.zipWith (fun w e => Scalar.log w + e) q.weights
          (q.growths selected measurements)) ≠ none →
        finite 1 ∈ (q.update selected measurements).2.weights ∧
          ∀ w ∈ (q.update selected measurements).2.weights, w ≤ finite 1 := by
  have hbounded := bounded_of_run hnew hrun
  obtain ⟨weights, hweights, hpaths, hwithin⟩ := hbounded.weights_finite
  refine ⟨?_, fun w hw => ?_, fun selected measurements haccepts hrescales => ?_⟩
  · rw [hweights, List.length_map]
    exact hpaths
  · rw [hweights] at hw
    obtain ⟨x, hx, rfl⟩ := List.mem_map.mp hw
    exact ⟨x, rfl, hwithin x hx⟩
  · have hcheck : (checkFeedback q.weights.length selected measurements :
        Except (Error Extended) Unit) = .ok () := by
      unfold Exp3.update at haccepts
      split at haccepts
      · exact absurd haccepts (by simp)
      · assumption
    obtain ⟨exponents, weights, hlen, -, hwithin, hweights, hgrowths, hupdate⟩ :=
      hbounded.growths hcheck
    rw [hgrowths, hweights, logs_finite fun w hw => weightFloor_pos.trans_le (hwithin w hw).1,
      rescaling?_finite] at hrescales
    cases hscale : rescaling? (grownLogs exponents weights) with
    | none =>
      rw [hscale] at hrescales
      exact absurd rfl hrescales
    | some top =>
      obtain ⟨hone, hall⟩ := grow_of_rescaling hlen hscale
      rw [hupdate]
      refine ⟨List.mem_map_of_mem hone, fun w hw => ?_⟩
      obtain ⟨x, hx, rfl⟩ := List.mem_map.mp hw
      exact le_finite.mpr (hall x hx)

end Policy

section Wild

open Extended

theorem grow_equal (n : ℕ) :
    grow (List.replicate n (0 : ℝ)) (List.replicate n 1) = List.replicate n 1 := by
  have hzip : List.zipWith (fun w e => w * Real.exp e) (List.replicate n 1)
      (List.replicate n 0) = List.replicate n 1 := by
    have h := zipWith_exp_zero (List.replicate n 1)
    rw [List.length_replicate] at h
    exact h
  have hmoderate : Unraised (List.replicate n 0) (List.replicate n 1) ∧
      grow (List.replicate n 0) (List.replicate n 1) =
        List.zipWith (fun w e => w * Real.exp e) (List.replicate n 1) (List.replicate n 0) := by
    apply grow_of_moderate
    · rw [List.length_replicate, List.length_replicate]
    · exact fun w hw => (List.eq_of_mem_replicate hw).ge
    · exact fun e he => (List.eq_of_mem_replicate he).ge
    · intro x hx
      rw [hzip] at hx
      exact (List.eq_of_mem_replicate hx).trans_le one_le_weightLimit
  exact hmoderate.2.trans hzip

theorem log_weightLimit_lt : Scalar.log (weightLimit : ℝ) < 1000 := by
  have hpow : (weightLimit : ℝ) = 10 ^ 100 := by
    unfold weightLimit
    norm_num
  have hten : Real.log 10 ≤ 10 - 1 := Real.log_le_sub_one_of_pos (by norm_num)
  calc Real.log weightLimit = 100 * Real.log 10 := by rw [hpow, Real.log_pow]; norm_num
    _ < 1000 := by linarith

/-- Two paths after an update with bandwidths that are no real numbers, which teaches nothing. The
next update rescales: its growth alone exceeds the logarithm of the limit. -/
theorem weights_bounded_wild :
    let half : Extended := finite (1 / 2)
    let wild : List (Metric Extended) := [⟨0, infinite true, 0⟩, ⟨0, undefined, 0⟩]
    let heavy : List (Metric Extended) := [⟨0, finite 4000, 0⟩]
    let p : Exp3 (Draws Tape) Extended :=
      ⟨half, List.replicate 2 1, List.replicate 2 1, none, ⟨[], fun _ => 0⟩⟩
    let q := (p.update [0, 0] wild).2
    Exp3.new 2 half p.rng = .ok p ∧ Relation.ReflTransGen Step p q ∧
      (q.update [0] heavy).1 = .ok () ∧
      rescaling? (List.zipWith (fun w e => Scalar.log w + e) q.weights (q.growths [0] heavy)) ≠
        none ∧
      finite 1 ∈ (q.update [0] heavy).2.weights := by
  intro half wild heavy p q
  have hnew : Exp3.new 2 half p.rng = .ok p := by
    have hhalf : 0 < half ∧ half < 1 := by
      rw [zero_finite, one_finite, lt_finite, lt_finite]
      norm_num
    exact if_pos hhalf
  have hrun : Relation.ReflTransGen Step p q := .single (.update p [0, 0] wild)
  have hones : List.replicate 2 (1 : Extended) = (List.replicate 2 (1 : ℝ)).map finite := by
    rw [one_finite, List.map_replicate]
  have hq : q = p := by
    have hgrowths : p.growths [0, 0] wild = (List.replicate 2 (0 : ℝ)).map finite := by
      rw [growths_of_not_finite p [0, 0] (by simp [wild, Scalar.isFinite]), zero_finite,
        List.map_replicate]
      rfl
    have hgrow : grow (p.growths [0, 0] wild) p.weights = p.weights := by
      rw [hgrowths]
      simp only [p, hones]
      rw [grow_finite (by simp), grow_equal]
    exact congrArg (fun weights => { p with weights := weights }) hgrow
  have hgrowth : p.growth 1 0 (finite 4000) = some (finite 1000) := by
    have hlearns : (true && Decidable.decide ((0 : Extended) < 1) &&
        Scalar.isFinite (finite 4000)) = true := by
      rw [decide_eq_true (by rw [zero_finite, one_finite, lt_finite]; exact one_pos)]
      rfl
    have hvalue : ((1 : ℕ) : Extended) * half * (finite 4000 / 1) / ((2 : ℕ) : Extended) =
        finite 1000 := by
      have hmul : ((1 : ℕ) : Extended) * half * finite (4000 / 1) = finite 2000 := by
        have hone : ((1 : ℕ) : Extended) = finite (1 : ℕ) := rfl
        rw [hone, mul_finite, mul_finite]
        exact congrArg finite (by norm_num)
      rw [one_finite, div_finite one_ne_zero, hmul]
      exact (div_finite (Nat.cast_ne_zero.mpr two_ne_zero)).trans (congrArg finite (by norm_num))
    rw [← hvalue]
    exact if_pos hlearns
  have hgrowths : p.growths [0] heavy = [1000, 0].map finite := by
    unfold growths
    simp only [heavy, List.zip_cons_cons, List.zip_nil_left, List.foldl_cons, List.foldl_nil,
      List.length_singleton, hgrowth, zero_finite]
    rfl
  have hscale : rescaling? (List.zipWith (fun w e => Scalar.log w + e) p.weights
      (p.growths [0] heavy)) ≠ none := by
    have htop : largest? (grownLogs [1000, 0] (List.replicate 2 1)) = some 1000 := by
      have hlogs : grownLogs [1000, 0] (List.replicate 2 1) = [1000, 0] := by simp [grownLogs]
      rw [hlogs]
      exact congrArg some (foldl_max_of_le (by simp))
    have hweights : p.weights = (List.replicate 2 (1 : ℝ)).map finite := hones
    rw [hgrowths, hweights, logs_finite (by simp), rescaling?_finite]
    unfold rescaling?
    rw [htop]
    dsimp only
    rw [if_pos log_weightLimit_lt]
    exact Option.some_ne_none _
  have haccepts : (q.update [0] heavy).1 = .ok () := by
    rw [hq]
    rfl
  rw [← hq] at hscale
  refine ⟨hnew, hrun, haccepts, hscale, ?_⟩
  exact ((weights_bounded hnew hrun).2.2 [0] heavy haccepts hscale).1

end Wild

end PathSelection.Exp3
