import Mathlib.Algebra.Order.BigOperators.Group.List
import PathSelection.Proofs.Lp.Optimum
import PathSelection.Proofs.Ranking

namespace PathSelection.Lp

/-- What paths get in the order of a visit: each as much of its limit as is left. -/
noncomputable def filling : ℝ → List ℝ → List ℝ
  | _, [] => []
  | left, limit :: limits => min limit left :: filling (left - min limit left) limits

/-- Shares within their limits that sum to a total. -/
structure Within (limits : List ℝ) (total : ℝ) (x : List ℝ) : Prop where
  bounded : List.Forall₂ (fun v limit => 0 ≤ v ∧ v ≤ limit) x limits
  sum_eq : x.sum = total

section Filling

variable {limits x : List ℝ} {left : ℝ}

theorem innerProduct_cons (a x : ℝ) (as xs : List ℝ) :
    innerProduct (a :: as) (x :: xs) = a * x + innerProduct as xs := by
  rw [innerProduct_real, innerProduct_real, List.zipWith_cons_cons, List.sum_cons]

theorem sum_nonneg_of_bounded (h : List.Forall₂ (fun v limit => 0 ≤ v ∧ v ≤ limit) x limits) :
    0 ≤ x.sum ∧ x.sum ≤ limits.sum := by
  induction h with
  | nil => exact ⟨le_rfl, le_rfl⟩
  | cons hv _ ih =>
    rw [List.sum_cons, List.sum_cons]
    exact ⟨add_nonneg hv.1 ih.1, add_le_add hv.2 ih.2⟩

theorem within_filling (hlimits : ∀ limit ∈ limits, 0 ≤ limit) (hleft : 0 ≤ left)
    (hsum : left ≤ limits.sum) : Within limits left (filling left limits) := by
  induction limits generalizing left with
  | nil =>
    have hzero : left = 0 := le_antisymm hsum hleft
    exact ⟨List.Forall₂.nil, hzero.symm⟩
  | cons limit limits ih =>
    have hlimit : 0 ≤ limit := hlimits limit List.mem_cons_self
    have hrest : ∀ other ∈ limits, 0 ≤ other :=
      fun other hother => hlimits other (List.mem_cons_of_mem limit hother)
    have hnonneg : 0 ≤ limits.sum := List.sum_nonneg hrest
    rw [List.sum_cons] at hsum
    have hremain : left - min limit left ≤ limits.sum := by
      rcases min_choice limit left with hmin | hmin <;> rw [hmin] <;> linarith
    obtain ⟨hbounded, htotal⟩ := ih hrest (sub_nonneg.mpr (min_le_right limit left)) hremain
    refine ⟨List.Forall₂.cons ⟨le_min hlimit hleft, min_le_left _ _⟩ hbounded, ?_⟩
    rw [filling, List.sum_cons, htotal, add_sub_cancel]

theorem exists_within_iff (hlimits : ∀ limit ∈ limits, 0 ≤ limit) (hleft : 0 ≤ left) :
    (∃ x, Within limits left x) ↔ left ≤ limits.sum := by
  constructor
  · rintro ⟨x, hbounded, rfl⟩
    exact (sum_nonneg_of_bounded hbounded).2
  · intro hsum
    exact ⟨_, within_filling hlimits hleft hsum⟩

/-- More than what is filled in can add no more than the largest value for each unit. -/
theorem innerProduct_le_filling {values : List ℝ} (hdesc : values.Pairwise (· ≥ ·))
    (hlen : values.length = limits.length)
    (hx : List.Forall₂ (fun v limit => 0 ≤ v ∧ v ≤ limit) x limits) {top : ℝ}
    (htop : ∀ v ∈ values, v ≤ top) (hleft : 0 ≤ left) (hsum : left ≤ x.sum) :
    innerProduct values x ≤ innerProduct values (filling left limits) + top * (x.sum - left) := by
  -- By induction on the paths: what the first one gets less than the filling gives it goes to paths
  -- of no larger value.
  induction hx generalizing values top left with
  | nil =>
    obtain rfl := List.length_eq_zero_iff.mp hlen
    have hzero : left = 0 := le_antisymm hsum hleft
    rw [filling, hzero, List.sum_nil, sub_self, mul_zero, add_zero]
  | @cons share limit xs limits hshare hbounded ih =>
    cases values with
    | nil => exact absurd hlen (by simp)
    | cons value values =>
      obtain ⟨hfirst, hrest⟩ := List.pairwise_cons.mp hdesc
      have hrange := sum_nonneg_of_bounded hbounded
      rw [List.sum_cons] at hsum ⊢
      have hremain : left - min limit left ≤ xs.sum := by
        rcases min_choice limit left with hmin | hmin <;> rw [hmin] <;> linarith [hshare.2]
      have hnext := ih hrest (Nat.succ.inj hlen) hfirst
        (sub_nonneg.mpr (min_le_right limit left)) hremain
      have hextra : value * (share + xs.sum - left) ≤ top * (share + xs.sum - left) :=
        mul_le_mul_of_nonneg_right (htop value List.mem_cons_self) (by linarith)
      rw [filling, innerProduct_cons, innerProduct_cons]
      calc
        value * share + innerProduct values xs
            ≤ value * share + (innerProduct values (filling (left - min limit left) limits) +
                value * (xs.sum - (left - min limit left))) := by linarith
        _ = value * min limit left + innerProduct values (filling (left - min limit left) limits) +
              value * (share + xs.sum - left) := by ring
        _ ≤ value * min limit left + innerProduct values (filling (left - min limit left) limits) +
              top * (share + xs.sum - left) := by linarith

end Filling

section Visit

variable {order : List ℕ} {x : List ℝ}

theorem map_getD_range (x : List ℝ) : (List.range x.length).map (x.getD · 0) = x := by
  apply List.ext_getElem
  · rw [List.length_map, List.length_range]
  intro i hi hi'
  rw [List.getElem_map, List.getElem_range, List.getD_eq_getElem _ 0 hi']

theorem sum_visit (horder : order.Perm (List.range x.length)) :
    (order.map (x.getD · 0)).sum = x.sum := by
  rw [(horder.map _).sum_eq, map_getD_range]

theorem innerProduct_visit (horder : order.Perm (List.range x.length)) (values : List ℝ) :
    innerProduct (order.map (values.getD · 0)) (order.map (x.getD · 0)) =
      innerProduct values x := by
  rw [innerProduct_real, List.zipWith_map, List.zipWith_self, (horder.map _).sum_eq,
    innerProduct_eq_sum]

theorem bounded_visit {limits : List ℝ} (hlen : x.length = limits.length)
    (horder : order.Perm (List.range limits.length)) :
    List.Forall₂ (fun v limit => 0 ≤ v ∧ v ≤ limit) (order.map (x.getD · 0))
        (order.map (limits.getD · 0)) ↔
      List.Forall₂ (fun v limit => 0 ≤ v ∧ v ≤ limit) x limits := by
  conv_rhs => rw [← map_getD_range x, ← map_getD_range limits, hlen]
  rw [List.forall₂_map_left_iff, List.forall₂_map_right_iff, List.forall₂_same,
    List.forall₂_map_left_iff, List.forall₂_map_right_iff, List.forall₂_same]
  exact forall_congr' fun i => imp_congr_left horder.mem_iff

/-- Any values can be found in the order of a visit. -/
theorem exists_visit (horder : order.Perm (List.range order.length)) {found : List ℝ}
    (hlen : found.length = order.length) :
    ∃ x : List ℝ, x.length = order.length ∧ order.map (x.getD · 0) = found := by
  let x := (List.range order.length).map fun i => found.getD (order.idxOf i) 0
  have hx : x.length = order.length := by rw [List.length_map, List.length_range]
  refine ⟨x, hx, ?_⟩
  have hnodup : order.Nodup := horder.nodup_iff.mpr List.nodup_range
  apply List.ext_getElem
  · rw [List.length_map, hlen]
  intro j hj hj'
  have hj'' : j < order.length := hlen ▸ hj'
  have hlt : order[j] < x.length := by
    rw [hx]
    exact List.mem_range.mp (horder.mem_iff.mp (List.getElem_mem hj''))
  rw [List.getElem_map, List.getD_eq_getElem _ 0 hlt, List.getElem_map, List.getElem_range,
    hnodup.idxOf_getElem, List.getD_eq_getElem _ 0 hj']

end Visit

section Greatest

variable {order : List ℕ} {values limits : List ℝ} {total : ℝ}

/-- The filling in the order of descending values has the greatest value. -/
theorem isGreatest_filling (horder : order.Perm (List.range limits.length))
    (hdesc : (order.map (values.getD · 0)).Pairwise (· ≥ ·))
    (hlimits : ∀ limit ∈ limits, 0 ≤ limit) (htotal : 0 ≤ total) (hsum : total ≤ limits.sum) :
    IsGreatest {value | ∃ x, Within limits total x ∧ value = innerProduct values x}
      (innerProduct (order.map (values.getD · 0))
        (filling total (order.map (limits.getD · 0)))) := by
  have hcount : order.length = limits.length := horder.length_eq.trans List.length_range
  have hvisited : ∀ limit ∈ order.map (limits.getD · 0), 0 ≤ limit := by
    intro limit hlimit
    have hperm := horder.map (limits.getD · 0)
    rw [map_getD_range] at hperm
    exact hlimits limit (hperm.mem_iff.mp hlimit)
  constructor
  · obtain ⟨hbounded, hfilled⟩ := within_filling hvisited htotal
      (by rw [sum_visit horder]; exact hsum)
    obtain ⟨x, hx, hvisit⟩ := exists_visit (hcount.symm ▸ horder)
      (hbounded.length_eq.trans (List.length_map _))
    have hx' : x.length = limits.length := hx.trans hcount
    refine ⟨x, ⟨?_, ?_⟩, ?_⟩
    · rw [← hvisit] at hbounded
      exact (bounded_visit hx' horder).mp hbounded
    · rw [← sum_visit (hx'.symm ▸ horder), hvisit, hfilled]
    · rw [← innerProduct_visit (hx'.symm ▸ horder) values, hvisit]
  · rintro value ⟨x, ⟨hbounded, rfl⟩, rfl⟩
    have hx := hbounded.length_eq
    have horder' : order.Perm (List.range x.length) := hx.symm ▸ horder
    obtain ⟨top, htop⟩ := (List.finite_toSet (order.map (values.getD · 0))).bddAbove
    have hle := innerProduct_le_filling hdesc (by rw [List.length_map, List.length_map])
      ((bounded_visit hx horder).mpr hbounded) (fun v hv => htop hv) htotal (sum_visit horder').ge
    rw [innerProduct_visit horder', sum_visit horder', sub_self, mul_zero, add_zero] at hle
    exact hle

end Greatest

section Unit

variable {order : List ℕ} {m : ℕ}

/-- With the limit one for all, a whole number of paths is filled and the others get nothing. -/
theorem filling_ones (k : ℕ) (hm : m ≤ k) :
    filling m (List.replicate k 1) = List.replicate m 1 ++ List.replicate (k - m) 0 := by
  induction k generalizing m with
  | zero =>
    obtain rfl := Nat.le_zero.mp hm
    rfl
  | succ k ih =>
    rw [List.replicate_succ, filling]
    cases m with
    | zero =>
      rw [Nat.cast_zero, min_eq_right zero_le_one, sub_zero, Nat.sub_zero]
      have hzero := ih (Nat.zero_le k)
      rw [Nat.cast_zero] at hzero
      rw [hzero]
      rfl
    | succ m =>
      have hone : min (1 : ℝ) (m + 1 : ℕ) = 1 := by
        apply min_eq_left
        push_cast
        linarith [(Nat.cast_nonneg m : (0 : ℝ) ≤ m)]
      rw [hone, Nat.cast_succ, add_sub_cancel_right, ih (Nat.le_of_succ_le_succ hm),
        Nat.succ_sub_succ]
      rfl

theorem innerProduct_replicate (xs : List ℝ) (c : ℝ) :
    innerProduct xs (List.replicate xs.length c) = c * xs.sum := by
  induction xs with
  | nil => simp [innerProduct_real]
  | cons x xs ih =>
    rw [List.length_cons, List.replicate_succ, innerProduct_cons, ih, List.sum_cons]
    ring

theorem innerProduct_append {as xs : List ℝ} (hlen : as.length = xs.length) (bs ys : List ℝ) :
    innerProduct (as ++ bs) (xs ++ ys) = innerProduct as xs + innerProduct bs ys := by
  rw [innerProduct_real, innerProduct_real, innerProduct_real, List.zipWith_append hlen,
    List.sum_append]

/-- With the limit one for all, the filling counts the first paths of the visit. -/
theorem innerProduct_filling_ones (values : List ℝ) (hm : m ≤ order.length) :
    innerProduct (order.map (values.getD · 0)) (filling m (order.map fun _ => 1)) =
      ((order.take m).map (values.getD · 0)).sum := by
  have htake : ((order.take m).map (values.getD · 0)).length = m := by
    rw [List.length_map, List.length_take, min_eq_left hm]
  have hdrop : ((order.drop m).map (values.getD · 0)).length = order.length - m := by
    rw [List.length_map, List.length_drop]
  have hfirst := innerProduct_replicate ((order.take m).map (values.getD · 0)) 1
  have hlast := innerProduct_replicate ((order.drop m).map (values.getD · 0)) 0
  have hsplit : order.map (values.getD · 0) =
      (order.take m).map (values.getD · 0) ++ (order.drop m).map (values.getD · 0) := by
    rw [← List.map_append, List.take_append_drop]
  rw [htake, one_mul] at hfirst
  rw [hdrop, zero_mul] at hlast
  rw [List.map_const', filling_ones order.length hm, hsplit,
    innerProduct_append (htake.trans List.length_replicate.symm), hfirst, hlast, add_zero]

end Unit

end PathSelection.Lp
