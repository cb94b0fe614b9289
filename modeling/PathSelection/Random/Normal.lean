import PathSelection.Random.Beta
import PathSelection.Random.Ziggurat
/-!
Normally distributed numbers by the ziggurat method: a random layer, a random point in it, and a
test only when the point is not surely below the density.
-/
namespace PathSelection.Draw

variable {ω : Type} [WordSource ω]

/-- A distance beyond the start of the tail. -/
def normalTail : Nat → ω → Float × ω
  | 0, rng => (0, rng)
  | fuel + 1, rng =>
    let (u₁, rng) := openUnit rng
    let (u₂, rng) := openUnit rng
    let x := Float.log u₁ / Ziggurat.tailStart
    let y := Float.log u₂
    if -2 * y < x * x then normalTail fuel rng else (x, rng)

/-- A number with the standard normal distribution. -/
def standardNormal : Nat → ω → Float × ω
  | 0, rng => (0, rng)
  | fuel + 1, rng =>
    let (bits, rng) := WordSource.next64 rng
    let layer := (bits &&& 0xff).toNat
    let u : Float := (2.0 + (bits >>> 12).toFloat * 4.440892098500626e-16) - 3.0
    let x := u * Ziggurat.edge layer
    if x.abs < Ziggurat.edge (layer + 1) then (x, rng)
    else if layer = 0 then
      let (t, rng) := normalTail attempts rng
      (if u < 0 then t - Ziggurat.tailStart else Ziggurat.tailStart - t, rng)
    else
      let (v, rng) := unit rng
      let low := Ziggurat.density (layer + 1)
      if low + (Ziggurat.density layer - low) * v < Float.exp (-x * x / 2) then (x, rng)
      else standardNormal fuel rng

/-- A number with the normal distribution of the given mean and standard deviation. -/
def normal (mean deviation : Float) (rng : ω) : Float × ω :=
  let (z, rng) := standardNormal attempts rng
  (mean + deviation * z, rng)

end PathSelection.Draw
