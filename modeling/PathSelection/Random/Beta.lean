import PathSelection.Random.Word

namespace PathSelection.Draw

variable {ω : Type} [WordSource ω]

/-- How many proposals are looked at; the last one is taken if none was accepted before. Each is
accepted with probability above one half. -/
def attempts : Nat := 1000

/-- The logarithm of the odds of a number in the unit interval. -/
def logOdds (u : Float) : Float := Float.log (u / (1 - u))

/-- The proposal weight that is accepted when both parameters are above one; `a` is the smaller
one. -/
def betaAboveOne (a b : Float) : Nat → ω → Float × ω
  | 0, rng => (1, rng)
  | fuel + 1, rng =>
    let total := a + b
    let spread := Float.sqrt ((total - 2) / (2 * a * b - total))
    let scale := a + 1 / spread
    let (u₁, rng) := openUnit rng
    let (u₂, rng) := openUnit rng
    let v := spread * logOdds u₁
    let w := a * Float.exp v
    let z := u₁ * u₁ * u₂
    let r := scale * v - Float.log 4
    let s := a + r - w
    -- The tangent of the logarithm at one fifth is above it and decides most proposals.
    if 5 * z ≤ s + 1 + Float.log 5 then (w, rng)
    else
      let t := Float.log z
      if t ≤ s then (w, rng)
      else if r + total * Float.log (total / (b + w)) < t then betaAboveOne a b fuel rng
      else (w, rng)

/-- The proposal weight that is accepted when the smaller parameter `b` is at most one. -/
def betaBelowOne (a b : Float) : Nat → ω → Float × ω
  | 0, rng => (1, rng)
  | fuel + 1, rng =>
    let total := a + b
    let spread := 1 / b
    let delta := 1 + a - b
    let k₁ := delta * (1 / 72 + 3 / 72 * b) / (a * spread - 14 / 18)
    let k₂ := 0.25 + (0.5 + 0.25 / delta) * b
    let (u₁, rng) := openUnit rng
    let (u₂, rng) := openUnit rng
    let v := spread * logOdds u₁
    let w := a * Float.exp v
    let tested (z : Float) : Bool :=
      !(total * (Float.log (total / (b + w)) + v) - Float.log 4 < Float.log z)
    -- Cheap bounds come before the logarithm here too.
    if u₁ < 0.5 then
      let y := u₁ * u₂
      let z := u₁ * y
      if k₁ ≤ 0.25 * u₂ + z - y then betaBelowOne a b fuel rng
      else if tested z then (w, rng)
      else betaBelowOne a b fuel rng
    else
      let z := u₁ * u₁ * u₂
      if z ≤ 0.25 then (w, rng)
      else if k₂ ≤ z then betaBelowOne a b fuel rng
      else if tested z then (w, rng)
      else betaBelowOne a b fuel rng

/-- A number with the Beta distribution of two positive parameters. The proposals are made for the
parameters in ascending order, and the answer is turned back. -/
def beta (alpha beta : Float) (rng : ω) : Float × ω :=
  let (low, high) := if alpha < beta then (alpha, beta) else (beta, alpha)
  if 1 < low then
    let (w, rng) := betaAboveOne low high attempts rng
    let share := if w.isInf then 1 else w / (high + w)
    if alpha < beta then (share, rng) else (high / (high + w), rng)
  else
    let (w, rng) := betaBelowOne high low attempts rng
    let share := if w.isInf then 1 else w / (low + w)
    if alpha < beta then (low / (low + w), rng) else (share, rng)

end PathSelection.Draw
