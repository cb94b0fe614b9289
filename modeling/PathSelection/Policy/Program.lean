import PathSelection.Metric
import PathSelection.Selection

namespace PathSelection

/-- The signal that is bounded or made small: the loss if loss is bounded, else the latency. -/
def Resource.cost {α : Type} (resource : Resource) (metric : Metric α) : α :=
  match resource with
  | .latency | .bandwidth => metric.latency
  | .loss => metric.loss

namespace Lp

variable {α : Type} [Scalar α]

/-- A list of `n` zeros but for one entry. -/
def unitRow (n i : Nat) (x : α) : List α := (List.replicate n 0).set i x

/-- The greatest bandwidth for which the latency share of each path is at most `cap`. -/
def latencyProgram (latencies bandwidths : List α) (m : Nat) (cap : α) :
    Except (Error α) (Program α) :=
  match ensureSameLength latencies.length bandwidths.length with
  | .error e => .error e
  | .ok () =>
    let k := latencies.length
    let rows := latencies.zipIdx.map fun (r, i) => unitRow k i r
    Program.new (Matrix.ofRows k (rows ++ [List.replicate k 1])) (List.replicate k cap) bandwidths
      (m : α) .maximize

/-- The greatest bandwidth for which the total loss is at most `cap`. -/
def lossProgram (losses bandwidths : List α) (m : Nat) (cap : α) :
    Except (Error α) (Program α) :=
  match ensureSameLength losses.length bandwidths.length with
  | .error e => .error e
  | .ok () =>
    let k := losses.length
    Program.new (Matrix.ofRows k [losses, List.replicate k 1]) [cap] bandwidths (m : α) .maximize

/-- The least bound of all latency shares for which the total bandwidth is at least `floor`. The
bound is the first variable, the shares follow. -/
def bandwidthProgram (latencies bandwidths : List α) (m : Nat) (floor : α) :
    Except (Error α) (Program α) :=
  match ensureSameLength latencies.length bandwidths.length with
  | .error e => .error e
  | .ok () =>
    let k := latencies.length
    let rows := latencies.zipIdx.map fun (r, i) => -1 :: unitRow k i r
    let floorRow := 0 :: bandwidths.map fun b => -b
    Program.new (Matrix.ofRows (k + 1) (rows ++ [floorRow, 0 :: List.replicate k 1]))
      (List.replicate k 0 ++ [-floor]) (1 :: List.replicate k 0) (m : α) .minimize

section Programs

variable {costs bandwidths : List α}

theorem latencyProgram_eq_ok (h : costs.length = bandwidths.length) (m : Nat) (cap : α) :
    latencyProgram costs bandwidths m cap =
      .ok ⟨Matrix.ofRows costs.length
        ((costs.zipIdx.map fun (r, i) => unitRow costs.length i r) ++
          [List.replicate costs.length 1]),
        List.replicate costs.length cap, bandwidths, (m : α), .maximize⟩ := by
  unfold latencyProgram
  rw [ensureSameLength_eq_ok.mpr h]
  apply Program.new_eq_ok
  · simp [Matrix.ofRows]
  · exact h.symm

theorem lossProgram_eq_ok (h : costs.length = bandwidths.length) (m : Nat) (cap : α) :
    lossProgram costs bandwidths m cap =
      .ok ⟨Matrix.ofRows costs.length [costs, List.replicate costs.length 1], [cap], bandwidths,
        (m : α), .maximize⟩ := by
  unfold lossProgram
  rw [ensureSameLength_eq_ok.mpr h]
  apply Program.new_eq_ok
  · simp [Matrix.ofRows]
  · exact h.symm

theorem bandwidthProgram_eq_ok (h : costs.length = bandwidths.length) (m : Nat) (floor : α) :
    bandwidthProgram costs bandwidths m floor =
      .ok ⟨Matrix.ofRows (costs.length + 1)
        ((costs.zipIdx.map fun (r, i) => -1 :: unitRow costs.length i r) ++
          [0 :: bandwidths.map fun b => -b] ++ [0 :: List.replicate costs.length 1]),
        List.replicate costs.length 0 ++ [-floor], 1 :: List.replicate costs.length 0,
        (m : α), .minimize⟩ := by
  unfold bandwidthProgram
  rw [ensureSameLength_eq_ok.mpr h, List.append_assoc]
  apply Program.new_eq_ok
  · simp [Matrix.ofRows]
  · simp [Matrix.ofRows]

end Programs

/-- The program that bounds a resource. -/
def resourceProgram (resource : Resource) (costs bandwidths : List α) (m : Nat) (bound : α) :
    Except (Error α) (Program α) :=
  match resource with
  | .latency => latencyProgram costs bandwidths m bound
  | .loss => lossProgram costs bandwidths m bound
  | .bandwidth => bandwidthProgram costs bandwidths m bound

/-- A program has one variable for each path, after the bound if bandwidth is bounded. -/
theorem resourceProgram_eq_ok (resource : Resource) {costs bandwidths : List α}
    (h : costs.length = bandwidths.length) (m : Nat) (bound : α) :
    ∃ program, resourceProgram resource costs bandwidths m bound = .ok program ∧
      program.costs.length =
        if resource = .bandwidth then costs.length + 1 else costs.length := by
  cases resource with
  | latency => exact ⟨_, latencyProgram_eq_ok h m bound, h.symm⟩
  | loss => exact ⟨_, lossProgram_eq_ok h m bound, h.symm⟩
  | bandwidth => exact ⟨_, bandwidthProgram_eq_ok h m bound, by simp⟩

end Lp

end PathSelection
