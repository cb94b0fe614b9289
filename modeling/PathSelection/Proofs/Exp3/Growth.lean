import Mathlib.Data.Nat.Cast.Defs
import PathSelection.Proofs.Exp3.Reachable

namespace PathSelection.Exp3

/-- The logarithms of the weights that have grown by the given exponents. -/
noncomputable def grownLogs (exponents weights : List ℝ) : List ℝ :=
  List.zipWith (fun w e => Real.log w + e) weights exponents

/-- No weight is raised to the floor when weights grow by the given exponents. A weight is written
when all of them are rescaled or when it grows itself. -/
def Unraised (exponents weights : List ℝ) : Prop :=
  ∀ i < weights.length,
    rescaling? (grownLogs exponents weights) ≠ none ∨ exponents.getD i 0 ≠ 0 →
      weightFloor ≤ Real.exp ((grownLogs exponents weights).getD i 0 -
        (rescaling? (grownLogs exponents weights)).getD 0)

section Growth

variable {exponents weights : List ℝ}

theorem getD_zipWith_of_lt (f : ℝ → ℝ → ℝ) (hlen : exponents.length = weights.length) {i : ℕ}
    (hi : i < weights.length) :
    (List.zipWith f weights exponents).getD i 0 = f (weights.getD i 0) (exponents.getD i 0) := by
  have hi' : i < exponents.length := hlen.symm ▸ hi
  have hzip : i < (List.zipWith f weights exponents).length := by
    rw [List.length_zipWith]
    omega
  rw [List.getD_eq_getElem _ 0 hzip, List.getD_eq_getElem _ 0 hi, List.getD_eq_getElem _ 0 hi',
    List.getElem_zipWith]

/-- One weight after growth: it is left alone or written on the logarithmic scale. -/
theorem getD_grow (hlen : exponents.length = weights.length) {i : ℕ} (hi : i < weights.length) :
    (grow exponents weights).getD i 0 =
      if rescaling? (grownLogs exponents weights) = none ∧ exponents.getD i 0 = 0 then
        weights.getD i 0
      else max (Real.exp ((grownLogs exponents weights).getD i 0 -
        (rescaling? (grownLogs exponents weights)).getD 0)) weightFloor := by
  have hi' : i < exponents.length := hlen.symm ▸ hi
  have hlogs : i < (grownLogs exponents weights).length := by
    unfold grownLogs
    rw [List.length_zipWith]
    omega
  have hfold : List.zipWith (fun w e => Scalar.log w + e) weights exponents =
      grownLogs exponents weights := rfl
  unfold grow
  simp only [hfold]
  cases hscale : rescaling? (grownLogs exponents weights) with
  | some top =>
    have hmap : i < ((grownLogs exponents weights).map fun l =>
        Scalar.max (Scalar.exp (l - top)) weightFloor).length := by
      rw [List.length_map]
      exact hlogs
    dsimp only
    rw [List.getD_eq_getElem _ 0 hmap, List.getElem_map, List.getD_eq_getElem _ 0 hlogs,
      Scalar.max_real, if_neg (fun hnone => Option.some_ne_none top hnone.1)]
    rfl
  | none =>
    dsimp only
    rw [List.getD_eq_getElem _ 0 (by simp [hlen, hlogs, hi]), List.getElem_zipWith,
      List.getElem_zip, List.getD_eq_getElem _ 0 hi, List.getD_eq_getElem _ 0 hi',
      List.getD_eq_getElem _ 0 hlogs]
    simp only [Scalar.max_real, Scalar.zero_real, true_and, Option.getD_none, beq_iff_eq]
    rfl

/-- Without the floor all weights grow by their exponents, up to a common divisor. -/
theorem grow_eq_zipWith (hlen : exponents.length = weights.length) (hpos : ∀ w ∈ weights, 0 < w)
    (h : Unraised exponents weights) :
    grow exponents weights =
      List.zipWith (fun w e => w * Real.exp e /
        Real.exp ((rescaling? (grownLogs exponents weights)).getD 0)) weights exponents := by
  apply List.ext_getElem
  · rw [length_grow hlen, List.length_zipWith, hlen, min_self]
  intro i hi hi'
  rw [← List.getD_eq_getElem _ 0 hi, ← List.getD_eq_getElem _ 0 hi']
  rw [length_grow hlen] at hi
  rw [getD_grow hlen hi, getD_zipWith_of_lt _ hlen hi]
  split
  · next hkept =>
    -- A weight that is left alone has no exponent, and then there is no shift either.
    rw [hkept.2, hkept.1, Option.getD_none, Real.exp_zero, mul_one, div_one]
  · next hwritten =>
    have hw : 0 < weights.getD i 0 := forall_mem_iff_getD.mp hpos i hi
    have hfloor := h i hi (by rw [← not_and_or]; exact hwritten)
    have hlog : (grownLogs exponents weights).getD i 0 =
        Real.log (weights.getD i 0) + exponents.getD i 0 := getD_zipWith_of_lt _ hlen hi
    rw [max_eq_left hfloor, hlog, Real.exp_sub, Real.exp_add, Real.exp_log hw]

theorem exists_largest? {xs : List ℝ} {x : ℝ} (h : x ∈ xs) : ∃ top, largest? xs = some top := by
  cases xs with
  | nil => exact absurd h List.not_mem_nil
  | cons y ys => exact ⟨_, rfl⟩

theorem largest?_mem {xs : List ℝ} {top : ℝ} (h : largest? xs = some top) : top ∈ xs := by
  cases xs with
  | nil => exact absurd h (by simp [largest?])
  | cons x xs =>
    obtain rfl := Option.some.inj h
    have hmem : xs.foldl Scalar.max x = x ∨ xs.foldl Scalar.max x ∈ xs := by
      apply List.foldlRecOn (motive := fun largest => largest = x ∨ largest ∈ xs)
      · exact Or.inl rfl
      · intro largest hlargest y hy
        rw [Scalar.max_real]
        rcases max_choice largest y with hmax | hmax
        · rw [hmax]
          exact hlargest
        · rw [hmax]
          exact Or.inr hy
    rw [List.mem_cons]
    exact hmem

theorem le_foldl_max (xs : List ℝ) (start : ℝ) :
    start ≤ xs.foldl Scalar.max start ∧ ∀ x ∈ xs, x ≤ xs.foldl Scalar.max start := by
  induction xs generalizing start with
  | nil => exact ⟨le_rfl, fun x hx => absurd hx List.not_mem_nil⟩
  | cons y ys ih =>
    obtain ⟨hstart, hall⟩ := ih (Scalar.max start y)
    rw [List.foldl_cons]
    rw [Scalar.max_real] at hstart hall ⊢
    refine ⟨(le_max_left start y).trans hstart, fun x hx => ?_⟩
    rcases List.mem_cons.mp hx with rfl | hx
    · exact (le_max_right start x).trans hstart
    · exact hall x hx

theorem le_largest? {xs : List ℝ} {top : ℝ} (h : largest? xs = some top) : ∀ x ∈ xs, x ≤ top := by
  cases xs with
  | nil => exact absurd h (by simp [largest?])
  | cons y ys =>
    obtain rfl := Option.some.inj h
    obtain ⟨hfirst, hrest⟩ := le_foldl_max ys y
    exact List.forall_mem_cons.mpr ⟨hfirst, hrest⟩

theorem zipWith_exp_pos (hpos : ∀ w ∈ weights, 0 < w) :
    ∀ x ∈ List.zipWith (fun w e => w * Real.exp e) weights exponents, 0 < x := by
  intro x hx
  obtain ⟨i, hi, rfl⟩ := List.mem_iff_getElem.mp hx
  rw [List.getElem_zipWith]
  exact mul_pos (hpos _ (List.getElem_mem _)) (Real.exp_pos _)

theorem grownLogs_eq_map_log (hpos : ∀ w ∈ weights, 0 < w) :
    grownLogs exponents weights =
      (List.zipWith (fun w e => w * Real.exp e) weights exponents).map Real.log := by
  unfold grownLogs
  apply List.ext_getElem
  · simp
  intro i hi hi'
  rw [List.getElem_map, List.getElem_zipWith, List.getElem_zipWith,
    Real.log_mul (hpos _ (List.getElem_mem _)).ne' (Real.exp_pos _).ne', Real.log_exp]

/-- Weights that stay within the limit are not rescaled. -/
theorem rescaling?_eq_none (hpos : ∀ w ∈ weights, 0 < w)
    (hlimit : ∀ x ∈ List.zipWith (fun w e => w * Real.exp e) weights exponents,
      x ≤ weightLimit) : rescaling? (grownLogs exponents weights) = none := by
  rw [grownLogs_eq_map_log hpos]
  unfold rescaling?
  cases hlargest : largest? ((List.zipWith (fun w e => w * Real.exp e) weights exponents).map
      Real.log) with
  | none => rfl
  | some top =>
    obtain ⟨x, hx, rfl⟩ := List.mem_map.mp (largest?_mem hlargest)
    exact if_neg (not_lt.mpr (Real.log_le_log (zipWith_exp_pos hpos x hx) (hlimit x hx)))

/-- Otherwise they are divided by the largest one. -/
theorem rescaling?_eq_some (hpos : ∀ w ∈ weights, 0 < w) {top : ℝ}
    (hmem : top ∈ List.zipWith (fun w e => w * Real.exp e) weights exponents)
    (hle : ∀ x ∈ List.zipWith (fun w e => w * Real.exp e) weights exponents, x ≤ top)
    (hlimit : weightLimit < top) :
    rescaling? (grownLogs exponents weights) = some (Real.log top) := by
  rw [grownLogs_eq_map_log hpos]
  obtain ⟨l, hlargest⟩ := exists_largest? (List.mem_map_of_mem (f := Real.log) hmem)
  have hl : l = Real.log top := by
    obtain ⟨x, hx, rfl⟩ := List.mem_map.mp (largest?_mem hlargest)
    have hlog := Real.log_le_log (zipWith_exp_pos hpos x hx) (hle x hx)
    exact le_antisymm hlog (le_largest? hlargest _ (List.mem_map_of_mem hmem))
  have hpos' : (0 : ℝ) < weightLimit := by
    unfold weightLimit
    norm_num
  unfold rescaling?
  rw [hlargest, hl]
  exact if_pos (Real.log_lt_log hpos' hlimit)

/-- Weights of which one grows beyond the limit are divided by the largest one. None of them is
raised if none is too small for that. -/
theorem grow_of_excessive (hlen : exponents.length = weights.length) (hpos : ∀ w ∈ weights, 0 < w)
    {grown : List ℝ} (hgrown : List.zipWith (fun w e => w * Real.exp e) weights exponents = grown)
    {top : ℝ} (hmem : top ∈ grown) (hle : ∀ x ∈ grown, x ≤ top) (hlimit : weightLimit < top)
    (hfloor : ∀ x ∈ grown, weightFloor * top ≤ x) :
    Unraised exponents weights ∧ grow exponents weights = grown.map (· / top) := by
  subst hgrown
  have htop : 0 < top := zipWith_exp_pos hpos top hmem
  have hscale := rescaling?_eq_some hpos hmem hle hlimit
  have hunraised : Unraised exponents weights := by
    intro i hi _
    have hi' : i < (List.zipWith (fun w e => w * Real.exp e) weights exponents).length := by
      rw [List.length_zipWith, hlen, min_self]
      exact hi
    have hx := zipWith_exp_pos hpos _ (List.getElem_mem hi')
    rw [hscale, Option.getD_some, grownLogs_eq_map_log hpos,
      List.getD_eq_getElem _ 0 (by rw [List.length_map]; exact hi'), List.getElem_map,
      Real.exp_sub, Real.exp_log hx, Real.exp_log htop, le_div_iff₀ htop]
    exact hfloor _ (List.getElem_mem hi')
  refine ⟨hunraised, ?_⟩
  rw [grow_eq_zipWith hlen hpos hunraised, hscale, Option.getD_some, Real.exp_log htop,
    List.map_zipWith]

/-- Weights of at least one that do not shrink and stay within the limit are neither raised nor
rescaled. -/
theorem grow_of_moderate (hlen : exponents.length = weights.length) (hone : ∀ w ∈ weights, 1 ≤ w)
    (hexponents : ∀ e ∈ exponents, 0 ≤ e)
    (hlimit : ∀ x ∈ List.zipWith (fun w e => w * Real.exp e) weights exponents,
      x ≤ weightLimit) :
    Unraised exponents weights ∧
      grow exponents weights = List.zipWith (fun w e => w * Real.exp e) weights exponents := by
  have hpos : ∀ w ∈ weights, 0 < w := fun w hw => one_pos.trans_le (hone w hw)
  have hscale := rescaling?_eq_none hpos hlimit
  have hunraised : Unraised exponents weights := by
    intro i hi _
    have hw : 1 ≤ weights.getD i 0 := forall_mem_iff_getD.mp hone i hi
    have he : 0 ≤ exponents.getD i 0 := forall_mem_iff_getD.mp hexponents i (hlen.symm ▸ hi)
    have hlog : 0 ≤ (grownLogs exponents weights).getD i 0 := by
      rw [grownLogs, getD_zipWith_of_lt _ hlen hi]
      exact add_nonneg (Real.log_nonneg hw) he
    have hfloor : (weightFloor : ℝ) ≤ 1 := by
      unfold weightFloor
      norm_num
    rw [hscale, Option.getD_none, sub_zero]
    exact hfloor.trans (Real.one_le_exp hlog)
  refine ⟨hunraised, ?_⟩
  rw [grow_eq_zipWith hlen hpos hunraised, hscale, Option.getD_none, Real.exp_zero]
  simp only [div_one]

end Growth

theorem modify_zipWith_exp {i : ℕ} (weights : List ℝ) {exponents : List ℝ}
    (hzero : exponents.getD i 0 = 0) (e : ℝ) :
    (List.zipWith (fun w e => w * Real.exp e) weights exponents).modify i (· * Real.exp e) =
      List.zipWith (fun w e => w * Real.exp e) weights (exponents.set i e) := by
  apply List.ext_getElem
  · simp
  intro j hj hj'
  rw [List.getElem_modify]
  simp only [List.getElem_zipWith, List.getElem_set]
  split
  · next heq =>
    subst heq
    have hlt : i < exponents.length := by
      rw [List.length_modify, List.length_zipWith] at hj
      omega
    rw [List.getD_eq_getElem _ 0 hlt] at hzero
    rw [hzero, Real.exp_zero, mul_one]
  · rfl

/-- A path that may learn from an entry multiplies its weight in the textbook and sets its exponent
in the policy. With different paths both come to the same. -/
theorem foldl_modify_eq_zipWith (f : ℕ × Metric ℝ → Option ℝ) (entries : List (ℕ × Metric ℝ))
    (hnodup : (entries.map Prod.fst).Nodup) (weights : List ℝ) {exponents : List ℝ}
    (hzero : ∀ entry ∈ entries, exponents.getD entry.1 0 = 0) :
    entries.foldl (fun weights entry =>
        (f entry).elim weights fun e => weights.modify entry.1 (· * Real.exp e))
      (List.zipWith (fun w e => w * Real.exp e) weights exponents) =
      List.zipWith (fun w e => w * Real.exp e) weights (entries.foldl (fun exponents entry =>
        (f entry).elim exponents fun e => exponents.set entry.1 e) exponents) := by
  induction entries generalizing exponents with
  | nil => rfl
  | cons entry rest ih =>
    obtain ⟨hfirst, hrest⟩ := List.nodup_cons.mp hnodup
    have hnext : ∀ later ∈ rest, later.1 ≠ entry.1 := by
      intro later hlater heq
      exact hfirst (heq ▸ List.mem_map_of_mem hlater)
    rw [List.foldl_cons, List.foldl_cons]
    cases hf : f entry with
    | none =>
      rw [Option.elim_none, Option.elim_none]
      exact ih hrest fun later hlater => hzero later (List.mem_cons_of_mem _ hlater)
    | some e =>
      rw [Option.elim_some, Option.elim_some,
        modify_zipWith_exp weights (hzero entry List.mem_cons_self) e]
      apply ih hrest
      intro later hlater
      have hold := hzero later (List.mem_cons_of_mem _ hlater)
      rw [List.getD_eq_getElem?_getD, List.getElem?_set_ne (hnext later hlater).symm,
        ← List.getD_eq_getElem?_getD]
      exact hold

theorem zipWith_exp_zero (weights : List ℝ) :
    List.zipWith (fun w e => w * Real.exp e) weights (List.replicate weights.length 0) =
      weights := by
  apply List.ext_getElem
  · simp
  intro i hi hi'
  rw [List.getElem_zipWith, List.getElem_replicate, Real.exp_zero, mul_one]

theorem zipWith_exp_set (weights : List ℝ) (path : ℕ) (e : ℝ) :
    List.zipWith (fun w e => w * Real.exp e) weights
      ((List.replicate weights.length 0).set path e) = weights.modify path (· * Real.exp e) := by
  have hzero : (List.replicate weights.length (0 : ℝ)).getD path 0 = 0 :=
    List.getElem?_getD_replicate_default_eq _ _ _
  rw [← modify_zipWith_exp weights hzero, zipWith_exp_zero]

/-- One path that grows at most tenfold among weights that are neither small nor large. -/
theorem grow_set {weights : List ℝ} {e : ℝ} (path : ℕ) (hone : ∀ w ∈ weights, 1 ≤ w)
    (hten : ∀ w ∈ weights, w ≤ 10) (hnonneg : 0 ≤ e) (hgrowth : Real.exp e ≤ 10) :
    Unraised ((List.replicate weights.length 0).set path e) weights ∧
      grow ((List.replicate weights.length 0).set path e) weights =
        weights.modify path (· * Real.exp e) := by
  rw [← zipWith_exp_set]
  apply grow_of_moderate (by simp) hone
  · intro x hx
    rcases List.mem_or_eq_of_mem_set hx with hold | rfl
    · exact (List.eq_of_mem_replicate hold).ge
    · exact hnonneg
  · intro x hx
    rw [zipWith_exp_set] at hx
    have hlimit : (100 : ℝ) ≤ weightLimit := by
      unfold weightLimit
      norm_num
    obtain ⟨i, hi, rfl⟩ := List.mem_iff_getElem.mp hx
    rw [List.length_modify] at hi
    have hlow := hone _ (List.getElem_mem hi)
    have hhigh := hten _ (List.getElem_mem hi)
    rw [List.getElem_modify]
    split
    · have hmul := mul_le_mul hhigh hgrowth (Real.exp_pos e).le (by norm_num)
      linarith
    · linarith

theorem growths_singleton (p : Exp3 ρ ℝ) (path : ℕ) (metric : Metric ℝ) :
    p.growths [path] [metric] = (List.replicate p.weights.length 0).set path
      ((p.growth 1 path metric.bandwidth).getD 0) := by
  have hsame : (List.replicate p.weights.length (0 : ℝ)).set path 0 =
      List.replicate p.weights.length 0 := by
    apply List.ext_getElem
    · exact List.length_set
    intro i hi hi'
    rw [List.getElem_set, List.getElem_replicate]
    split <;> rfl
  unfold growths
  rw [List.zip_cons_cons, List.foldl_cons, Scalar.zero_real]
  dsimp only [List.length_singleton]
  cases p.growth 1 path metric.bandwidth with
  | none => exact hsame.symm
  | some e => rfl

end PathSelection.Exp3
