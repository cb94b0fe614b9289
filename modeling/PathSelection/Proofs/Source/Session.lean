import PathSelection.Path
import PathSelection.Proofs.Source.Replay
import PathSelection.Random.ChaCha

namespace PathSelection

/-- A request to a source, or a measurement of the live path that reads from it. -/
inductive Request where
  | refresh
  | prefer (selected : List Nat)
  | sample (path : Nat)
  | measure
  deriving DecidableEq

/-- What a request answers. -/
inductive Answer (α : Type) where
  | refreshed (outcome : Except (Error α) FeedStatus)
  | delivered (outcome : Except (Error α) Unit)
  | sampled (value : Option (Metric α))
  | measured (metric : Metric α)

namespace Request

/-- The selection that a request delivers. -/
def selection? : Request → Option (List Nat)
  | .prefer selected => some selected
  | .refresh | .sample _ | .measure => none

/-- Whether a snapshot was requested and the live path has not been measured since. -/
def due (requests : List Request) : Bool :=
  requests.foldl (fun waiting request =>
    match request with
    | .refresh => true
    | .measure => false
    | .prefer _ | .sample _ => waiting) false

/-- The live path is measured after each request for a snapshot, before the next one. -/
def Watched (requests : List Request) : Prop :=
  ∀ n (h : n < requests.length), requests[n] = .refresh → due (requests.take n) = false

instance (requests : List Request) : Decidable (Watched requests) := by
  unfold Watched
  infer_instance

theorem due_concat (requests : List Request) (request : Request) :
    due (requests ++ [request]) =
      match request with
      | .refresh => true
      | .measure => false
      | .prefer _ | .sample _ => due requests :=
  List.foldl_concat _ _ _ _

theorem Watched.of_concat {requests : List Request} {request : Request}
    (h : Watched (requests ++ [request])) :
    Watched requests ∧ (request = .refresh → due requests = false) := by
  constructor
  · intro n hn hrefresh
    have hlt : n < (requests ++ [request]).length := by
      rw [List.length_append]
      exact Nat.lt_add_right _ hn
    have hearlier := h n hlt (by rwa [List.getElem_append_left hn])
    rwa [List.take_append_of_le_length (Nat.le_of_lt hn)] at hearlier
  · intro hrefresh
    have hlt : requests.length < (requests ++ [request]).length := by
      rw [List.length_append]
      exact Nat.lt_succ_self _
    have hlast := h requests.length hlt (by rwa [List.getElem_concat_length rfl])
    rwa [List.take_left] at hlast

end Request

/-- How a request for a snapshot is answered, by the next snapshot of a script, if there is one. -/
def FeedStatus.ofNext {μ : Type} (paths : Nat) : Option (List μ) → FeedStatus
  | none => .exhausted
  | some snapshot => if paths ≤ snapshot.length then .fresh else .stale

/-- How the request was answered, if it was one for a snapshot and did not fail. -/
def Answer.status? {α : Type} : Answer α → Option FeedStatus
  | .refreshed (.ok status) => some status
  | .refreshed (.error _) | .delivered _ | .sampled _ | .measured _ => none

namespace Replay

variable {μ : Type}

/-- The snapshots whose requests were answered as fresh. -/
def accepted (script : List (List μ)) (feeds : List FeedStatus) : List (List μ) :=
  ((script.zip feeds).filter fun entry => entry.2 = .fresh).map Prod.fst

theorem accepted_nil (script : List (List μ)) : accepted script [] = [] := by
  unfold accepted
  rw [List.zip_nil_right]
  rfl

theorem accepted_concat (script : List (List μ)) (feeds : List FeedStatus) (status : FeedStatus) :
    accepted script (feeds ++ [status]) = accepted script feeds ++
      (if status = .fresh then script[feeds.length]? else none).toList := by
  have hzip : script.zip (feeds ++ [status]) =
      script.zip feeds ++ script[feeds.length]?.toList.map fun snapshot => (snapshot, status) := by
    induction script generalizing feeds with
    | nil => rfl
    | cons snapshot script ih =>
      cases feeds with
      | nil => exact congrArg (List.cons (snapshot, status)) List.zip_nil_right
      | cons feed feeds => exact congrArg (List.cons (snapshot, feed)) (ih feeds)
  unfold accepted
  rw [hzip, List.filter_append, List.map_append]
  congr 1
  by_cases hfresh : status = .fresh
  · cases script[feeds.length]? <;> simp [hfresh]
  · cases script[feeds.length]? <;> simp [hfresh]

variable {α : Type}

/-- A replay after some requests for snapshots, with the answers to them. -/
structure Tracks (paths : Nat) (script : List (List (Metric α))) (feeds : List FeedStatus)
    (r : Replay α) : Prop where
  paths_eq : r.paths = paths
  script_eq : r.script = script.drop feeds.length
  consumed_eq : r.consumed + r.script.length = script.length
  feeds_eq : feeds = (List.range feeds.length).map fun n => FeedStatus.ofNext paths script[n]?
  current_eq : r.current = (accepted script feeds).getLastD []

variable {paths : Nat} {script : List (List (Metric α))} {feeds : List FeedStatus} {r : Replay α}

theorem tracks_start (paths : Nat) (script : List (List (Metric α))) :
    Tracks paths script [] (withPathCount paths script) where
  paths_eq := rfl
  script_eq := rfl
  consumed_eq := Nat.zero_add _
  feeds_eq := rfl
  current_eq := by
    rw [accepted_nil]
    rfl

theorem Tracks.prefer (h : Tracks paths script feeds r) (selected : List Nat) :
    Tracks paths script feeds (r.prefer selected) :=
  ⟨h.paths_eq, h.script_eq, h.consumed_eq, h.feeds_eq, h.current_eq⟩

theorem Tracks.consumed_min (h : Tracks paths script feeds r) :
    r.consumed = min feeds.length script.length := by
  have hlength : r.script.length = script.length - feeds.length :=
    (congrArg List.length h.script_eq).trans List.length_drop
  have hconsumed := h.consumed_eq
  omega

theorem Tracks.sample_eq (h : Tracks paths script feeds r) (i : Nat) :
    r.sample i = (accepted script feeds).getLast?.bind fun snapshot => snapshot[i]? := by
  unfold sample
  rw [h.current_eq, List.getLastD_eq_getLast?]
  cases (accepted script feeds).getLast? <;> rfl

/-- The next request takes the next snapshot of the script. -/
theorem refresh_next {r' : Replay α} {status : FeedStatus} (h : r.refresh = (status, r')) :
    status = FeedStatus.ofNext r.paths r.script.head? ∧ r'.script = r.script.tail ∧
      r'.current = if status = .fresh then r.script.head?.getD [] else r.current := by
  obtain ⟨-, -, -, hcases⟩ := refresh_cases h
  cases status with
  | exhausted =>
    obtain ⟨hnil, hnil', hcurrent⟩ := hcases
    rw [hnil]
    exact ⟨rfl, hnil', hcurrent⟩
  | stale =>
    obtain ⟨next, hnarrow, hscript, hcurrent⟩ := hcases
    rw [hscript]
    exact ⟨(if_neg (Nat.not_le.mpr hnarrow)).symm, rfl, hcurrent⟩
  | fresh =>
    obtain ⟨hwide, hscript⟩ := hcases
    rw [hscript]
    exact ⟨(if_pos hwide).symm, rfl, rfl⟩

theorem Tracks.refresh {r' : Replay α} {status : FeedStatus} (h : Tracks paths script feeds r)
    (hrefresh : r.refresh = (status, r')) : Tracks paths script (feeds ++ [status]) r' := by
  obtain ⟨hpaths, -, hconsumed, -⟩ := refresh_cases hrefresh
  obtain ⟨hstatus, hscript, hcurrent⟩ := refresh_next hrefresh
  have hnext : r.script.head? = script[feeds.length]? := by
    rw [h.script_eq, List.head?_drop]
  rw [hnext] at hstatus hcurrent
  rw [h.paths_eq] at hstatus hpaths
  refine ⟨hpaths, ?_, hconsumed.trans h.consumed_eq, ?_, ?_⟩
  · rw [hscript, h.script_eq, List.tail_drop, List.length_append, List.length_singleton]
  · rw [List.length_append, List.length_singleton, List.range_succ, List.map_append, ← h.feeds_eq,
      List.map_singleton, ← hstatus]
  · rw [hcurrent, h.current_eq, accepted_concat]
    by_cases hfresh : status = .fresh
    · -- A request beyond the end of the script is not answered as fresh.
      cases hsnapshot : script[feeds.length]? with
      | none =>
        rw [hsnapshot] at hstatus
        exact absurd (hfresh.symm.trans hstatus) nofun
      | some snapshot =>
        rw [if_pos hfresh, if_pos hfresh, Option.toList_some, List.getLastD_concat]
        rfl
    · rw [if_neg hfresh, if_neg hfresh, Option.toList_none, List.append_nil]

end Replay

/-- A replay, and a live path that reads from it. -/
structure Session (ρ α : Type) where
  source : Replay α
  path : Path ρ α

namespace Session

open Replay

variable {ρ α : Type}

/-- The replay of a script with a live path that was not measured yet. -/
def start (paths : Nat) (script : List (List (Metric α))) (index : Nat) (reference : Metric α) :
    Session ρ α :=
  ⟨withPathCount paths script, Path.ofReference index reference⟩

variable [Scalar α] [RandomSource ρ α]

/-- The answer to a request, and the session after it. -/
def serve (s : Session ρ α) : Request → Answer α × Session ρ α
  | .refresh =>
    let (outcome, source) := MeasurementSource.refresh s.source
    (.refreshed outcome, { s with source := source })
  | .prefer selected =>
    let (outcome, source) := MeasurementSource.prefer selected s.source
    (.delivered outcome, { s with source := source })
  | .sample path => (.sampled (MeasurementSource.sample s.source path), s)
  | .measure =>
    let (metric, path) := s.path.measure (MeasurementSource.sample s.source)
    (.measured metric, { s with path := path })

/-- The answers to requests one after another, and the session after them. -/
def serveAll : List Request → Session ρ α → List (Answer α) × Session ρ α
  | [], s => ([], s)
  | request :: requests, s =>
    let (answer, s) := s.serve request
    let (answers, s) := serveAll requests s
    (answer :: answers, s)

theorem serveAll_concat (requests : List Request) (request : Request) (s : Session ρ α) :
    serveAll (requests ++ [request]) s =
      ((serveAll requests s).1 ++ [((serveAll requests s).2.serve request).1],
        ((serveAll requests s).2.serve request).2) := by
  induction requests generalizing s with
  | nil => rfl
  | cons first requests ih =>
    unfold serveAll
    rw [List.cons_append]
    dsimp only
    rw [ih]
    rfl

/-- How the requests for snapshots were answered, in order. -/
def feeds (requests : List Request) (s : Session ρ α) : List FeedStatus :=
  (serveAll requests s).1.filterMap Answer.status?

theorem feeds_concat (requests : List Request) (request : Request) (s : Session ρ α) :
    feeds (requests ++ [request]) s =
      feeds requests s ++ ((serveAll requests s).2.serve request).1.status?.toList := by
  unfold feeds
  rw [serveAll_concat, List.filterMap_append]
  cases h : ((serveAll requests s).2.serve request).1.status? <;> simp [h]

section Script

variable {paths : Nat} {script : List (List (Metric α))} {index : Nat} {reference : Metric α}

/-- What one request changes about the source: one for a snapshot takes the next one, and one that
delivers a selection adds it. -/
theorem tracks_serve {s : Session ρ α} {statuses : List FeedStatus}
    (h : Tracks paths script statuses s.source) (request : Request) :
    Tracks paths script (statuses ++ (s.serve request).1.status?.toList)
        (s.serve request).2.source ∧
      (s.serve request).1.status?.toList.length = [request].count .refresh ∧
      (s.serve request).2.source.preferred =
        s.source.preferred ++ request.selection?.toList := by
  cases request with
  | refresh =>
    obtain ⟨-, hdelivered, -⟩ := refresh_cases (Prod.eta s.source.refresh).symm
    refine ⟨h.refresh (Prod.eta _).symm, rfl, ?_⟩
    exact (congrArg List.reverse hdelivered).trans (List.append_nil _).symm
  | prefer selected =>
    refine ⟨?_, rfl, preferred_prefer selected s.source⟩
    exact (List.append_nil statuses).symm ▸ h.prefer selected
  | sample path => exact ⟨(List.append_nil statuses).symm ▸ h, rfl, (List.append_nil _).symm⟩
  | measure => exact ⟨(List.append_nil statuses).symm ▸ h, rfl, (List.append_nil _).symm⟩

/-- The latest value that the source had for a path, or the reference if it had none. -/
def latest (index : Nat) (reference : Metric α) (snapshots : List (List (Metric α))) : Metric α :=
  (snapshots.filterMap fun snapshot => snapshot[index]?).getLastD reference

omit [Scalar α] in
theorem latest_concat (snapshots : List (List (Metric α))) (snapshot : List (Metric α)) :
    latest index reference (snapshots ++ [snapshot]) =
      snapshot[index]?.getD (latest index reference snapshots) := by
  unfold latest
  rw [List.filterMap_append]
  cases h : snapshot[index]? with
  | none => simp [h]
  | some value => simp [h]

/-- A live path shows a value when it is measured. If no measurement is due, it keeps that value
already. -/
def Shows (index : Nat) (reference value : Metric α) (waiting : Bool) (s : Session ρ α) : Prop :=
  ∃ last, s.path = .source index reference last ∧ (s.source.sample index).getD last = value ∧
    (waiting = false → last = value)

section Shows

variable {value : Metric α} {waiting : Bool} {s : Session ρ α} {statuses : List FeedStatus}

theorem Shows.measure (h : Shows index reference value waiting s) :
    (s.serve .measure).1 = .measured value ∧
      Shows index reference value false (s.serve .measure).2 := by
  obtain ⟨last, hpath, hsample, -⟩ := h
  have hmeasured : s.path.measure s.source.sample = (value, .source index reference value) := by
    rw [hpath, ← hsample]
    rfl
  have hkept : (s.source.sample index).getD value = value := by
    cases hcurrent : s.source.sample index with
    | none => rfl
    | some current =>
      rw [hcurrent] at hsample
      exact hsample
  exact ⟨congrArg Answer.measured (congrArg Prod.fst hmeasured), value,
    congrArg Prod.snd hmeasured, hkept, fun _ => rfl⟩

/-- A path that was measured since the last request keeps the latest value so far, which it shows
again unless the next snapshot has another one. -/
theorem Shows.refresh (htracks : Tracks paths script statuses s.source)
    (h : Shows index reference (latest index reference (accepted script statuses)) false s) :
    Shows index reference
      (latest index reference (accepted script (statuses ++ [s.source.refresh.1]))) true
      (s.serve .refresh).2 := by
  obtain ⟨last, hpath, hsample, hlast⟩ := h
  have hnext := htracks.refresh (Prod.eta s.source.refresh).symm
  refine ⟨last, hpath, ?_, nofun⟩
  change (s.source.refresh.2.sample index).getD last = _
  rw [htracks.sample_eq] at hsample
  rw [hnext.sample_eq, accepted_concat]
  cases (if s.source.refresh.1 = .fresh then script[statuses.length]? else none) with
  | none => rwa [Option.toList_none, List.append_nil]
  | some snapshot =>
    rw [Option.toList_some, latest_concat, List.getLast?_concat, hlast rfl]
    rfl

end Shows

variable (paths script index reference)

/-- What the requests so far leave of the source. -/
theorem tracks_serveAll (requests : List Request) :
    let s : Session ρ α := start paths script index reference
    Tracks paths script (feeds requests s) (serveAll requests s).2.source ∧
      (feeds requests s).length = requests.count .refresh ∧
      (serveAll requests s).2.source.preferred = requests.filterMap Request.selection? := by
  intro s
  induction requests using List.reverseRecOn with
  | nil => exact ⟨tracks_start paths script, rfl, rfl⟩
  | append_singleton requests request ih =>
    obtain ⟨htracks, hlength, hpreferred⟩ := ih
    obtain ⟨htracks', hlength', hpreferred'⟩ := tracks_serve htracks request
    rw [feeds_concat, serveAll_concat]
    refine ⟨htracks', ?_, ?_⟩
    · rw [List.length_append, hlength, hlength', List.count_append]
    · rw [hpreferred', hpreferred, List.filterMap_append]
      cases h : request.selection? <;> simp [h]

/-- A live path that was measured in time shows the latest value. -/
theorem shows_serveAll {requests : List Request} (hwatched : Request.Watched requests) :
    let s : Session ρ α := start paths script index reference
    Shows index reference (latest index reference (accepted script (feeds requests s)))
      (Request.due requests) (serveAll requests s).2 := by
  intro s
  induction requests using List.reverseRecOn with
  | nil =>
    change Shows index reference (latest index reference (accepted script [])) false s
    rw [accepted_nil]
    exact ⟨reference, rfl, rfl, fun _ => rfl⟩
  | append_singleton requests request ih =>
    obtain ⟨hearlier, hdue⟩ := hwatched.of_concat
    have hshows := ih hearlier
    have htracks := (tracks_serveAll (ρ := ρ) paths script index reference requests).1
    have hsame := (List.append_nil (feeds requests s)).symm
    rw [feeds_concat, serveAll_concat, Request.due_concat]
    cases request with
    | refresh => exact .refresh htracks (hdue rfl ▸ hshows)
    | measure => exact hsame ▸ hshows.measure.2
    | prefer selected => exact hsame ▸ hshows
    | sample path => exact hsame ▸ hshows

/-- The answers of a replay to requests in any order. It takes a snapshot of the script for each
request, as long as there is one, and answers `fresh` if that has a value for each path. Only then
the samples change, to those of that snapshot. A live path that is measured after each request for a
snapshot shows its reference at first, and then the latest value that the source had for it. -/
theorem serveAll_replay (requests : List Request) :
    let s : Session ρ α := start paths script index reference
    let t := (serveAll requests s).2
    let snapshots := accepted script (feeds requests s)
    t.source.consumed = min (requests.count .refresh) script.length ∧
    feeds requests s = (List.range (requests.count .refresh)).map
      (fun n => FeedStatus.ofNext paths script[n]?) ∧
    (∀ i, (t.serve (.sample i)).1 =
      .sampled (snapshots.getLast?.bind fun snapshot => snapshot[i]?)) ∧
    ((t.serve .refresh).1 ≠ .refreshed (.ok .fresh) → ∀ i,
      ((t.serve .refresh).2.serve (.sample i)).1 = (t.serve (.sample i)).1) ∧
    t.source.preferred = requests.filterMap Request.selection? ∧
    (Request.Watched requests →
      (t.serve .measure).1 = .measured (latest index reference snapshots)) := by
  intro s t snapshots
  obtain ⟨htracks, hlength, hpreferred⟩ :=
    tracks_serveAll (ρ := ρ) paths script index reference requests
  refine ⟨hlength ▸ htracks.consumed_min, hlength ▸ htracks.feeds_eq, fun i => ?_,
    fun hstatus i => ?_, hpreferred, fun hwatched => ?_⟩
  · exact congrArg Answer.sampled (htracks.sample_eq i)
  · have hcurrent := (refresh_next (Prod.eta t.source.refresh).symm).2.2
    have hother : t.source.refresh.1 ≠ .fresh := fun hfresh =>
      hstatus (congrArg (fun status => Answer.refreshed (.ok status)) hfresh)
    rw [if_neg hother] at hcurrent
    exact congrArg (fun current : List (Metric α) => Answer.sampled current[i]?) hcurrent
  · exact (shows_serveAll (ρ := ρ) paths script index reference hwatched).measure.1

end Script

/-- A narrow snapshot, one with a value more than there are paths, and one with just enough. -/
def shrinkingScript : List (List (Metric Float)) :=
  [[⟨0, 1, 0⟩], [⟨0, 0.5, 0⟩, ⟨0, 0.25, 0⟩, ⟨0.5, 0.75, 0⟩], [⟨0, 0, 0⟩, ⟨0, 1, 1⟩]]

/-- A path that only the second of these snapshots has a value for keeps that value when the next
snapshot has none, and also beyond the end of the script. -/
theorem serveAll_replay_shrinking :
    let requests : List Request := [.refresh, .measure, .prefer [1, 0], .refresh, .sample 2,
      .measure, .refresh, .measure, .prefer [0], .refresh]
    let t := (serveAll requests
      (start 2 shrinkingScript 2 ⟨0, 1, 0⟩ : Session ChaCha Float)).2
    Request.Watched requests ∧ t.source.consumed = 3 ∧ t.source.preferred = [[1, 0], [0]] ∧
      (t.serve (.sample 2)).1 = .sampled none ∧
      (t.serve (.sample 1)).1 = .sampled (some ⟨0, 1, 1⟩) ∧
      (t.serve .measure).1 = .measured ⟨0.5, 0.75, 0⟩ := by
  intro requests t
  have hwatched : Request.Watched requests := by decide
  obtain ⟨hconsumed, -, hsample, -, hpreferred, hmeasured⟩ :=
    serveAll_replay (ρ := ChaCha) 2 shrinkingScript 2 ⟨0, 1, 0⟩ requests
  exact ⟨hwatched, hconsumed, hpreferred, hsample 2, hsample 1, hmeasured hwatched⟩

end Session

end PathSelection
