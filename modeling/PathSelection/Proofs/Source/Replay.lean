import Mathlib.Data.List.GetD
import Mathlib.Data.List.Infix
import PathSelection.Proofs.Source.Requests
import PathSelection.Source.Replay

namespace PathSelection

namespace Replay

variable {μ : Type}

/-- The snapshots of a script that have a value for each of `k` paths. -/
def full (k : Nat) (script : List (List μ)) : List (List μ) :=
  script.filter fun snapshot => k ≤ snapshot.length

/-- Among any so many snapshots in a row there is a full one. -/
def Patient (k attempts : Nat) (script : List (List μ)) : Prop :=
  ∀ run, run <:+: script → run.length = attempts → ∃ snapshot ∈ run, k ≤ snapshot.length

theorem Patient.of_suffix {k attempts : Nat} {script rest : List (List μ)}
    (h : Patient k attempts script) (hrest : rest <:+ script) : Patient k attempts rest := by
  intro run hrun hlength
  exact h run (hrun.trans hrest.isInfix) hlength

theorem patient_iff {k attempts : Nat} {script : List (List μ)} :
    Patient k attempts script ↔ ∀ i < script.length + 1, i + attempts ≤ script.length →
      ∃ snapshot ∈ (script.drop i).take attempts, k ≤ snapshot.length := by
  constructor
  · intro h i _ hfits
    apply h
    · exact (List.take_prefix _ _).isInfix.trans (List.drop_suffix i script).isInfix
    · rw [List.length_take, List.length_drop]
      omega
  · rintro h run ⟨before, after, rfl⟩ rfl
    have hrun : ((before ++ run ++ after).drop before.length).take run.length = run := by
      rw [List.append_assoc, List.drop_left, List.take_left]
    have hsome := h before.length
    rw [hrun] at hsome
    simp only [List.length_append] at hsome
    exact hsome (by omega) (by omega)

instance {k attempts : Nat} {script : List (List μ)} : Decidable (Patient k attempts script) :=
  decidable_of_iff _ patient_iff.symm

theorem full_append_of_short {k : Nat} {short rest : List (List μ)}
    (hshort : ∀ snapshot ∈ short, snapshot.length < k) : full k (short ++ rest) = full k rest := by
  have hnone : short.filter (fun snapshot => decide (k ≤ snapshot.length)) = [] := by
    apply List.filter_eq_nil_iff.mpr
    intro snapshot hmem
    have hlt := hshort snapshot hmem
    rw [decide_eq_true_iff]
    omega
  unfold full
  rw [List.filter_append, hnone, List.nil_append]

/-- What at most so many requests take from a script, and which snapshot is the current one after
them. -/
inductive Fetches (k attempts : Nat) (current : List μ) :
    List (List μ) → List FeedStatus → List (List μ) → List μ → Prop
  /-- All requests were answered by narrow snapshots. -/
  | gaveUp {short rest : List (List μ)} {feeds : List FeedStatus}
      (hshort : ∀ snapshot ∈ short, snapshot.length < k) (hlength : short.length = attempts)
      (hfeeds : .exhausted ∉ feeds) : Fetches k attempts current (short ++ rest) feeds rest current
  | fresh {short rest : List (List μ)} {next : List μ} {feeds : List FeedStatus}
      (hshort : ∀ snapshot ∈ short, snapshot.length < k) (hnext : k ≤ next.length)
      (hfeeds : .exhausted ∉ feeds) :
      Fetches k attempts current (short ++ next :: rest) feeds rest next
  /-- The script came to its end. -/
  | ended {short : List (List μ)} {feeds : List FeedStatus}
      (hshort : ∀ snapshot ∈ short, snapshot.length < k) (hfeeds : .exhausted ∈ feeds) :
      Fetches k attempts current short feeds [] current

section Fetches

variable {k attempts : Nat} {current current' : List μ} {script script' : List (List μ)}
  {feeds : List FeedStatus}

theorem Fetches.stale {next : List μ} (hnext : next.length < k)
    (h : Fetches k attempts current script feeds script' current') :
    Fetches k (attempts + 1) current (next :: script) (.stale :: feeds) script' current' := by
  have hcons : ∀ short : List (List μ), (∀ snapshot ∈ short, snapshot.length < k) →
      ∀ snapshot ∈ next :: short, snapshot.length < k := by
    intro short hshort snapshot hmem
    rcases List.mem_cons.mp hmem with rfl | hmem
    · exact hnext
    · exact hshort snapshot hmem
  cases h with
  | @gaveUp short _ _ hshort hlength hfeeds =>
    exact .gaveUp (hcons short hshort) (congrArg Nat.succ hlength)
      (by simpa using hfeeds)
  | @fresh short _ _ _ hshort hfull hfeeds =>
    exact .fresh (hcons short hshort) hfull (by simpa using hfeeds)
  | ended hshort hfeeds =>
    exact .ended (hcons script hshort) (List.mem_cons_of_mem _ hfeeds)

theorem Fetches.length_lt (h : Fetches k attempts current script feeds script' current')
    (hattempts : 0 < attempts) (hfeeds : .exhausted ∉ feeds) : script'.length < script.length := by
  cases h with
  | gaveUp hshort hlength _ =>
    rw [List.length_append]
    omega
  | fresh hshort hnext _ =>
    rw [List.length_append, List.length_cons]
    omega
  | ended hshort hexhausted => exact absurd hexhausted hfeeds

theorem Fetches.eq_nil_of_exhausted (h : Fetches k attempts current script feeds script' current')
    (hfeeds : .exhausted ∈ feeds) : script' = [] := by
  cases h with
  | gaveUp hshort hlength hnone => exact absurd hfeeds hnone
  | fresh hshort hnext hnone => exact absurd hfeeds hnone
  | ended hshort hexhausted => rfl

theorem Fetches.suffix (h : Fetches k attempts current script feeds script' current') :
    script' <:+ script := by
  cases h with
  | gaveUp hshort hlength _ => exact List.suffix_append _ _
  | fresh hshort hnext _ => exact ⟨_, List.append_assoc _ [_] _⟩
  | ended hshort hexhausted => exact List.nil_suffix

/-- A patient turn takes the first full snapshot, if there is one. -/
theorem Fetches.full_eq (h : Fetches k attempts current script feeds script' current')
    (hpatient : Patient k attempts script) :
    full k script' = (full k script).tail ∧ current' = (full k script).headD current ∧
      (.exhausted ∈ feeds ↔ full k script = []) := by
  cases h with
  | @gaveUp short _ _ hshort hlength _ =>
    obtain ⟨snapshot, hmem, hle⟩ :=
      hpatient short (List.prefix_append short script').isInfix hlength
    exact absurd (hshort snapshot hmem) (Nat.not_lt.mpr hle)
  | fresh hshort hnext hfeeds =>
    have hfull : full k (current' :: script') = current' :: full k script' :=
      List.filter_cons_of_pos (decide_eq_true hnext)
    rw [full_append_of_short hshort, hfull]
    exact ⟨rfl, rfl, iff_of_false hfeeds (List.cons_ne_nil _ _)⟩
  | ended hshort hfeeds =>
    have hfull : full k (script ++ []) = full k [] := full_append_of_short hshort
    rw [List.append_nil] at hfull
    rw [hfull]
    exact ⟨rfl, rfl, iff_of_true hfeeds rfl⟩

/-- A path that keeps the value of the current snapshot reads that of the next one. -/
theorem Fetches.getD_eq (h : Fetches k attempts current script feeds script' current') {i : Nat}
    (hi : i < k) (d : μ) : current'[i]?.getD (current[i]?.getD d) = current'[i]?.getD d := by
  have hkept : current[i]?.getD (current[i]?.getD d) = current[i]?.getD d := by
    cases current[i]? <;> rfl
  cases h with
  | gaveUp hshort hlength _ => exact hkept
  | fresh hshort hnext _ =>
    rw [List.getElem?_eq_getElem (Nat.lt_of_lt_of_le hi hnext)]
    rfl
  | ended hshort hfeeds => exact hkept

end Fetches

variable {α : Type}

/-- What a request for a snapshot changes. -/
theorem refresh_cases {r r' : Replay α} {status : FeedStatus} (h : r.refresh = (status, r')) :
    r'.paths = r.paths ∧ r'.delivered = r.delivered ∧
      r'.consumed + r'.script.length = r.consumed + r.script.length ∧
      match status with
      | .exhausted => r.script = [] ∧ r'.script = [] ∧ r'.current = r.current
      | .stale => ∃ next, next.length < r.paths ∧ r.script = next :: r'.script ∧
          r'.current = r.current
      | .fresh => r.paths ≤ r'.current.length ∧ r.script = r'.current :: r'.script := by
  unfold refresh at h
  split at h
  · next hscript =>
    obtain ⟨rfl, rfl⟩ := Prod.mk.inj h
    exact ⟨rfl, rfl, rfl, hscript, hscript, rfl⟩
  · next next rest hscript =>
    have hlength : r.consumed + 1 + rest.length = r.consumed + r.script.length := by
      rw [hscript, List.length_cons]
      omega
    split at h
    · next hnarrow =>
      obtain ⟨rfl, rfl⟩ := Prod.mk.inj h
      exact ⟨rfl, rfl, hlength, next, hnarrow, hscript, rfl⟩
    · next hwide =>
      obtain ⟨rfl, rfl⟩ := Prod.mk.inj h
      exact ⟨rfl, rfl, hlength, Nat.not_lt.mp hwide, hscript⟩

theorem refresh_eq_ok {r r' : Replay α} {status : FeedStatus}
    (h : MeasurementSource.refresh r = (.ok status, r')) : r.refresh = (status, r') := by
  obtain ⟨hstatus, hsource⟩ := Prod.mk.inj h
  exact Prod.ext (Except.ok.inj hstatus) hsource

/-- No request to a replay fails. -/
theorem responsive : Responsive fun _ : Replay α => True where
  refreshes r _ := ⟨r.refresh.1, r.refresh.2, rfl, trivial⟩
  prefers selected r _ := ⟨r.prefer selected, rfl, trivial⟩

theorem fetches_of_awaits {attempts : Nat} {r r' : Replay α} {feeds : List FeedStatus}
    (h : Awaits attempts r feeds r') :
    Fetches r.paths attempts r.current r.script feeds r'.script r'.current ∧
      r'.paths = r.paths ∧ r'.delivered = r.delivered ∧
      r'.consumed + r'.script.length = r.consumed + r.script.length := by
  have hnone : ∀ k, ∀ snapshot ∈ ([] : List (List (Metric α))), snapshot.length < k := by
    intro k snapshot hmem
    exact absurd hmem List.not_mem_nil
  induction h with
  | gaveUp r =>
    exact ⟨.gaveUp (hnone r.paths) rfl List.not_mem_nil, rfl, rfl, rfl⟩
  | @stale attempts r r₁ r₂ feeds hrefresh _ ih =>
    obtain ⟨hpaths, hdelivered, hconsumed, next, hnext, hscript, hcurrent⟩ :=
      refresh_cases (refresh_eq_ok hrefresh)
    obtain ⟨hfetches, hpaths₂, hdelivered₂, hconsumed₂⟩ := ih
    rw [hpaths, hcurrent] at hfetches
    rw [hscript]
    exact ⟨hfetches.stale hnext, hpaths₂.trans hpaths, hdelivered₂.trans hdelivered,
      hconsumed₂.trans (hscript ▸ hconsumed)⟩
  | @answered attempts r r₁ status hrefresh hstatus =>
    have hcases := refresh_cases (refresh_eq_ok hrefresh)
    cases status with
    | stale => exact absurd rfl hstatus
    | fresh =>
      obtain ⟨hpaths, hdelivered, hconsumed, hwide, hscript⟩ := hcases
      refine ⟨?_, hpaths, hdelivered, hconsumed⟩
      rw [hscript]
      exact .fresh (hnone r.paths) hwide (by decide)
    | exhausted =>
      obtain ⟨hpaths, hdelivered, hconsumed, hscript, hscript', hcurrent⟩ := hcases
      refine ⟨?_, hpaths, hdelivered, hconsumed⟩
      rw [hscript, hscript', hcurrent]
      exact .ended (hnone r.paths) (by decide)

theorem fetches_of_steered {attempts : Nat} {selected : List Nat} {feeds : List FeedStatus}
    {r : Replay α} {source : Option (Replay α)}
    (h : Steered attempts selected (some r) feeds source) :
    ∃ r', source = some r' ∧ r'.paths = r.paths ∧
      Fetches r.paths attempts r.current r.script feeds r'.script r'.current ∧
      r'.preferred = r.preferred ++ [selected] ∧
      r'.consumed + r'.script.length = r.consumed + r.script.length := by
  cases h with
  | @live _ r₁ r' _ hprefer hawaits =>
    obtain rfl : r.prefer selected = r₁ := congrArg Prod.snd hprefer
    obtain ⟨hfetches, hpaths, hdelivered, hconsumed⟩ := fetches_of_awaits hawaits
    refine ⟨r', rfl, hpaths, hfetches, ?_, hconsumed⟩
    rw [← preferred_prefer]
    exact congrArg List.reverse hdelivered

end Replay

end PathSelection
