namespace PathSelection

/-- A generator of 32-bit and 64-bit words. -/
class WordSource (ω : Type) where
  next32 : ω → UInt32 × ω
  next64 : ω → UInt64 × ω

/-- A generator that repeats a list of words; a 32-bit word is the lower half of one of them. -/
structure WordCycle where
  words : List UInt64
  position : Nat
  deriving Repr

namespace WordCycle

/-- The word at the position, and the next position. -/
def next (c : WordCycle) : UInt64 × WordCycle :=
  (c.words.getD c.position 0, { c with position := (c.position + 1) % c.words.length })

instance : WordSource WordCycle where
  next32 c := let (w, c) := c.next; (w.toUInt32, c)
  next64 c := c.next

end WordCycle

namespace Draw

variable {ω : Type} [WordSource ω]

/-- A number in `[0, 1)`: the upper 53 bits of a word as a binary fraction. -/
def unit (rng : ω) : Float × ω :=
  let (w, rng) := WordSource.next64 rng
  ((w >>> 11).toFloat * 1.1102230246251565e-16, rng)

/-- A number in `(0, 1)`: the midpoint of one of `2 ^ 52` equal parts. -/
def openUnit (rng : ω) : Float × ω :=
  let (w, rng) := WordSource.next64 rng
  let shifted : Float := 1.0 + (w >>> 12).toFloat * 2.220446049250313e-16
  (shifted - (1.0 - 1.1102230246251565e-16), rng)

/-- A number between `low` and `high`, both included: the upper half of a word times the size of the
range. When the lower half is so large that the result may be biased, a second word decides whether
to carry. -/
def below (low high : UInt32) (rng : ω) : UInt32 × ω :=
  let range := high - low + 1
  let (w, rng) := WordSource.next32 rng
  let product := w.toUInt64 * range.toUInt64
  let result := (product >>> 32).toUInt32
  let rest := product.toUInt32
  if rest > 0 - range then
    let (w, rng) := WordSource.next32 rng
    let carry := ((w.toUInt64 * range.toUInt64) >>> 32) + rest.toUInt64
    (low + result + (if 0x100000000 ≤ carry then 1 else 0), rng)
  else (low + result, rng)

/-- An index between `low` and `high`, both included. -/
def index (low high : Nat) (rng : ω) : Nat × ω :=
  let (i, rng) := below low.toUInt32 high.toUInt32 rng
  (i.toNat, rng)

end Draw

end PathSelection
