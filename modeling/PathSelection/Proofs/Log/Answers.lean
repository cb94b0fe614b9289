import PathSelection.Proofs.Log.Bag
import PathSelection.Proofs.Log.Columns
import PathSelection.Proofs.Log.Rewards

namespace PathSelection

variable {α : Type} [Scalar α] {policies rounds paths policy round path : Nat}

namespace Event

omit [Scalar α] in
/-- The value of a round for a policy, if the event is one. -/
def reward? (policy round : Nat) : Event α → Option (RoundReward α)
  | .rewarded p t reward => if p = policy ∧ t = round then some reward else none
  | _ => none

/-- What the events of some repetitions tell of a path in a round of a policy: in which share of the
repetitions it was selected, and the means of its measurements, added up in their order. -/
def quantity (repetitions : Nat) (events : List (Event α)) (s : Fin 4)
    (policy round path : Nat) : α :=
  let sum := (events.filterMap (measurement? policy round path)).foldl (· + ·) Metric.zero
  match s with
  | 0 => ((events.countP (isSelection policy round path) : Nat) : α) / (repetitions : α)
  | 1 => (sum.average repetitions).latency
  | 2 => (sum.average repetitions).bandwidth
  | 3 => (sum.average repetitions).loss

/-- What a policy got in a round of some repetitions, added up in the order of the events. -/
def rewardSum (events : List (Event α)) (policy round : Nat) : RoundReward α :=
  (events.filterMap (reward? policy round)).foldl (· + ·) RoundReward.zero

/-- What a policy got in the rounds up to the given one, as an average over some repetitions. -/
def cumulative (repetitions : Nat) (events : List (Event α)) (policy round : Nat) :
    RoundReward α :=
  ((List.range (round + 1)).foldl (fun sum t => sum + rewardSum events policy t)
    RoundReward.zero).average repetitions

end Event

namespace RoundLog

variable {log : RoundLog α}

theorem whole_new (policies rounds paths : Nat) :
    Whole (RoundLog.new policies rounds paths : RoundLog α) :=
  ⟨full_new policies rounds paths, Array.size_replicate⟩

theorem total_new (policies rounds paths policy round path : Nat) :
    (RoundLog.new policies rounds paths : RoundLog α).total policy round path = Metric.zero := by
  unfold total new
  split
  · rw [Array.getD_eq_getD_getElem?, Array.getElem?_replicate]
    split <;> rfl
  · rfl

/-- After some more events, the measurements among them have come to the sum of their triple. -/
theorem total_recordAll (h : Whole log) (hwithin : log.Within policy round path)
    (events : List (Event α)) :
    (Recorder.recordAll events log).total policy round path =
      (events.filterMap (Event.measurement? policy round path)).foldl (· + ·)
        (log.total policy round path) := by
  -- By induction on the events: a log that has recorded one more is as whole as before.
  induction events generalizing log with
  | nil => rfl
  | cons e events ih =>
    have hwithin' : (Recorder.record e log : RoundLog α).Within policy round path :=
      (sameShape_record e log).within_iff.mpr hwithin
    rw [Recorder.recordAll_cons, ih (h.record e) hwithin', total_record h hwithin]
    cases hmetric : e.measurement? policy round path with
    | none => rw [List.filterMap_cons_none hmetric]
    | some metric => rw [List.filterMap_cons_some hmetric, List.foldl_cons]

/-- After the events of some repetitions a log answers with what the events tell. -/
theorem quantity_recordAll (hpolicy : policy < policies) (hround : round < rounds)
    (hpath : path < paths) {events : List (Event α)} {repetitions : Nat} (hpos : 0 < repetitions)
    (hrepetitions : events.countP Event.isBeginning = repetitions) (s : Fin 4) :
    (Recorder.recordAll events (RoundLog.new policies rounds paths)).quantity s policy round path =
      Event.quantity repetitions events s policy round path := by
  have hwhole : Whole (RoundLog.new policies rounds paths : RoundLog α) := whole_new _ _ _
  have hwithin : (RoundLog.new policies rounds paths : RoundLog α).Within policy round path :=
    ⟨hpolicy, hround, hpath⟩
  obtain ⟨hshape, hbegun, hcounts⟩ := counts_recordAll hwhole.toFull events
  have hcount := hcounts policy round path hwithin
  have htotal := total_recordAll hwhole hwithin events
  -- From here on only the cell of the triple matters, with its two counters and the repetitions.
  generalize Recorder.recordAll events (RoundLog.new policies rounds paths : RoundLog α) = log at *
  have hcell := hshape.cell?_eq.trans (hwhole.cell?_eq hwithin)
  have hbegun' : log.repetitions = repetitions :=
    hbegun.trans (hrepetitions ▸ Nat.zero_add repetitions)
  rw [count_new, Nat.zero_add, count, hcell] at hcount
  rw [total_new, total, hcell] at htotal
  have hfrequency : log.selectionFrequency policy round path =
      Event.quantity repetitions events 0 policy round path := by
    unfold selectionFrequency
    rw [hcell]
    dsimp only at hcount ⊢
    rw [hbegun', if_neg hpos.ne', hcount]
    rfl
  have hmean : log.meanMetric policy round path =
      ((events.filterMap (Event.measurement? policy round path)).foldl (· + ·)
        Metric.zero).average repetitions := by
    unfold meanMetric
    rw [hcell]
    dsimp only at htotal ⊢
    rw [hbegun', htotal]
  fin_cases s
  · exact hfrequency
  · exact congrArg Metric.latency hmean
  · exact congrArg Metric.bandwidth hmean
  · exact congrArg Metric.loss hmean

end RoundLog

namespace RewardLog

variable {log : RewardLog α}

theorem get?_new (hpolicy : policy < policies) (hround : round < rounds) :
    (RewardLog.new policies rounds : RewardLog α).get? policy round = some RoundReward.zero := by
  have hcell := index_lt hpolicy hround
  unfold get? new
  dsimp only
  rw [if_pos ⟨hpolicy, hround⟩, Array.getElem?_replicate, if_pos hcell]

theorem get?_record (e : Event α) (log : RewardLog α) (policy round : Nat) :
    (Recorder.record e log : RewardLog α).get? policy round =
      match e.reward? policy round with
      | some reward => (log.get? policy round).map (· + reward)
      | none => log.get? policy round := by
  cases e with
  | rewarded policy' round' reward =>
    refine (log.get?_recordReward policy' round' reward policy round).trans ?_
    by_cases hsame : policy' = policy ∧ round' = round
    · rw [if_pos hsame, Event.reward?, if_pos hsame]
    · rw [if_neg hsame, Event.reward?, if_neg hsame]
  | _ => rfl

theorem get?_recordAll (events : List (Event α)) (log : RewardLog α) (policy round : Nat) :
    (Recorder.recordAll events log).get? policy round =
      (log.get? policy round).map fun sum =>
        (events.filterMap (Event.reward? policy round)).foldl (· + ·) sum := by
  induction events generalizing log with
  | nil => exact Option.map_id'.symm
  | cons e events ih =>
    rw [Recorder.recordAll_cons, ih, get?_record]
    cases hreward : e.reward? policy round with
    | none => rw [List.filterMap_cons_none hreward]
    | some reward =>
      rw [List.filterMap_cons_some hreward, Option.map_map]
      rfl

/-- After the events of some repetitions a log answers with what the events tell. -/
theorem cumulative_recordAll (hpolicy : policy < policies) (hround : round < rounds)
    {events : List (Event α)} {repetitions : Nat}
    (hrepetitions : events.countP Event.isBeginning = repetitions) :
    (Recorder.recordAll events (RewardLog.new policies rounds)).cumulative policy round =
      Event.cumulative repetitions events policy round := by
  obtain ⟨-, hrounds, hbegun⟩ :=
    repetitions_recordAll events (RewardLog.new policies rounds : RewardLog α)
  rw [hrepetitions] at hbegun
  have hbegun' := hbegun.trans (Nat.zero_add repetitions)
  have hlast : round < (Recorder.recordAll events
      (RewardLog.new policies rounds : RewardLog α)).rounds := by
    rw [hrounds]
    exact hround
  have hsums : (Recorder.recordAll events (RewardLog.new policies rounds : RewardLog α)).sumOf
      policy (round + 1) = (List.range (round + 1)).foldl
        (fun sum t => sum + Event.rewardSum events policy t) RoundReward.zero := by
    apply List.foldl_ext
    intro sum t ht
    have hlt : t < rounds := (Nat.lt_succ_iff.mp (List.mem_range.mp ht)).trans_lt hround
    rw [get?_recordAll, get?_new hpolicy hlt]
    rfl
  -- The averages of a round are those of the sums over all rounds up to it.
  rw [← average_sumOf _ hlast, hsums, hbegun']
  rfl

end RewardLog

end PathSelection
