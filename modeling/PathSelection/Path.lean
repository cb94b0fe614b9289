import PathSelection.Metric
import PathSelection.Error
import PathSelection.Random.Source
import PathSelection.Seed

namespace PathSelection

/-- The kinds of paths. -/
inductive PathKind where
  | fixed
  | bernoulli
  | normal
  | source
  deriving Repr, DecidableEq

namespace PathKind

def text : PathKind → String
  | .fixed => "fixed"
  | .bernoulli => "bernoulli"
  | .normal => "normal"
  | .source => "source"

/-- The kind with the given name, in any case. -/
def parse {α : Type} (s : String) : Except (Error α) PathKind :=
  let name := String.ofList (s.toList.map Char.toLower)
  match name with
  | "fixed" | "fixvalue" => .ok .fixed
  | "bernoulli" => .ok .bernoulli
  | "normal" => .ok .normal
  | "source" | "kernel" => .ok .source
  | _ => .error (.invalidParameter "path_kind" (.text name))

end PathKind

/-- A path that can be measured. -/
inductive Path (ρ α : Type) where
  /-- Every measurement equals the mean. -/
  | fixed (mean : Metric α)
  /-- Each signal is zero or one, and one with its mean as probability. -/
  | bernoulli (mean : Metric α) (rng : ρ)
  /-- Each signal is normally distributed and then moved into the unit interval. -/
  | normal (mean deviation : Metric α) (rng : ρ)
  /-- The current value of a source for the path with the given index; when the source has none, the
  last value that it had, and before that the reference. -/
  | source (index : Nat) (reference last : Metric α)
  deriving Repr

namespace Path

variable {ρ α : Type}

/-- The kind of a path. -/
def kind : Path ρ α → PathKind
  | .fixed _ => .fixed
  | .bernoulli .. => .bernoulli
  | .normal .. => .normal
  | .source .. => .source

/-- The expected measurement. -/
def mean : Path ρ α → Metric α
  | .fixed mean => mean
  | .bernoulli mean _ => mean
  | .normal mean _ _ => mean
  | .source _ reference _ => reference

/-- A live path that was not measured yet. -/
def ofReference (index : Nat) (reference : Metric α) : Path ρ α :=
  .source index reference reference

/-- The mean, with the standard deviation of a normal path. -/
def info [NumberText α] : Path ρ α → String
  | .normal mean deviation _ => "\t" ++ mean.text ++ "\t(sd " ++ deviation.text ++ ")"
  | p => "\t" ++ p.mean.text

variable [Scalar α]

/-- Fails unless a standard deviation is finite and not negative. -/
def checkDeviation (name : String) (x : α) : Except (Error α) Unit :=
  if !Scalar.isFinite x || Decidable.decide (x < 0) then
    .error (.invalidParameter name (.number x))
  else .ok ()

/-- A normal path with a standard deviation for each signal. -/
def newNormal (mean deviation : Metric α) (rng : ρ) : Except (Error α) (Path ρ α) :=
  match checkDeviation "stddev_r" deviation.latency with
  | .error e => .error e
  | .ok () =>
    match checkDeviation "stddev_b" deviation.bandwidth with
    | .error e => .error e
    | .ok () =>
      match checkDeviation "stddev_l" deviation.loss with
      | .error e => .error e
      | .ok () => .ok (.normal mean deviation rng)

variable [RandomSource ρ α]

/-- One or zero, one with the given probability. -/
def bernoulliSignal (mean : α) (rng : ρ) : α × ρ :=
  let (success, rng) := PathSelection.bernoulli mean rng
  (if success then 1 else 0, rng)

/-- A normally distributed number in the unit interval. Without deviation nothing is drawn. -/
def normalSignal (mean deviation : α) (rng : ρ) : α × ρ :=
  if deviation == 0 then (Scalar.clampUnit mean, rng)
  else
    let (x, rng) := RandomSource.normal mean deviation rng
    (Scalar.clampUnit x, rng)

/-- Measures a path once. The argument tells the current value of the source, if it has one. -/
def measure (sample : Nat → Option (Metric α)) : Path ρ α → Metric α × Path ρ α
  | .fixed mean => (mean, .fixed mean)
  | .bernoulli mean rng =>
    let (r, rng) := bernoulliSignal mean.latency rng
    let (b, rng) := bernoulliSignal mean.bandwidth rng
    let (l, rng) := bernoulliSignal mean.loss rng
    (⟨r, b, l⟩, .bernoulli mean rng)
  | .normal mean deviation rng =>
    let (r, rng) := normalSignal mean.latency deviation.latency rng
    let (b, rng) := normalSignal mean.bandwidth deviation.bandwidth rng
    let (l, rng) := normalSignal mean.loss deviation.loss rng
    (⟨r, b, l⟩, .normal mean deviation rng)
  | .source index reference last =>
    let value := (sample index).getD last
    (value, .source index reference value)

/-- Measures all paths once, in order. -/
def measureAll (sample : Nat → Option (Metric α)) (paths : List (Path ρ α)) :
    List (Metric α) × List (Path ρ α) :=
  let measured := paths.map (measure sample)
  (measured.map (·.1), measured.map (·.2))

end Path

/-- Simulated paths with the given means; path `i` gets the generator of the seed for path `i`. A
live path cannot be made from a mean. -/
def buildPaths {ρ α : Type} [Scalar α] (generator : UInt64 → ρ) (seeds : SeedSequence)
    (kind : PathKind) (deviation : α) (means : List (Metric α)) :
    Except (Error α) (List (Path ρ α)) :=
  means.zipIdx.mapM fun (mean, i) =>
    let rng := generator (seeds.seedFor "path" i)
    match kind with
    | .fixed => .ok (.fixed mean)
    | .bernoulli => .ok (.bernoulli mean rng)
    | .normal => Path.newNormal mean ⟨deviation, deviation, deviation⟩ rng
    | .source =>
      .error (.invalidParameter "path_kind" (.text "source paths need a measurement source"))

/-- Live paths for the first `count` paths of a source. Until the source has a value for it, a path
is taken to have all the bandwidth and no latency or loss. -/
def sourcePaths {ρ α : Type} [Scalar α] (count : Nat) : List (Path ρ α) :=
  (List.range count).map fun i => Path.ofReference i ⟨0, 1, 0⟩

end PathSelection
