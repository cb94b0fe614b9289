import PathSelection.Random.Word

namespace PathSelection.Draw

variable {ω : Type} [WordSource ω]

/-- Exchanges two entries of a list; an index outside the list changes nothing. -/
def exchange {β : Type} (xs : List β) (i j : Nat) : List β :=
  match xs[i]?, xs[j]? with
  | some x, some y => (xs.set i y).set j x
  | _, _ => xs

/-- Several small random indices that are taken out of one random word: the word that is left, and
how many more indices it holds. -/
structure IndexChunk where
  value : Nat
  left : Nat

/-- The largest product `bound * (bound + 1) * …` of consecutive numbers that fits 32 bits, and the
number after its last factor. The first factor is taken as given. -/
def chunkProduct : Nat → Nat → Nat → Nat × Nat
  | 0, product, factor => (product, factor)
  | fuel + 1, product, factor =>
    if product * factor < UInt32.size then chunkProduct fuel (product * factor) (factor + 1)
    else (product, factor)

/-- A random index below `bound`, from the chunk if it holds one and else from a new chunk. -/
def chunkIndex (bound : Nat) (chunk : IndexChunk) (rng : ω) : Nat × IndexChunk × ω :=
  let (chunk, rng) :=
    if chunk.left = 0 then
      let (product, factor) := chunkProduct 32 bound (bound + 1)
      let (value, rng) := index 0 (product - 1) rng
      (IndexChunk.mk value (factor - bound), rng)
    else (chunk, rng)
  let left := chunk.left - 1
  if left = 0 then (chunk.value, ⟨chunk.value, 0⟩, rng)
  else (chunk.value % bound, ⟨chunk.value / bound, left⟩, rng)

/-- Exchanges each of the positions `position, position + 1, …` with a random earlier one or
itself. -/
def shuffleFrom {β : Type} : Nat → Nat → IndexChunk → List β → ω → List β × ω
  | 0, _, _, xs, rng => (xs, rng)
  | count + 1, position, chunk, xs, rng =>
    let (j, chunk, rng) := chunkIndex (position + 1) chunk rng
    shuffleFrom count (position + 1) chunk (exchange xs position j) rng

/-- A random rearrangement of a list. The first position has nothing to be exchanged with and draws
no word. -/
def shuffle {β : Type} (xs : List β) (rng : ω) : List β × ω :=
  if xs.length ≤ 1 then (xs, rng) else shuffleFrom xs.length 0 ⟨0, 1⟩ xs rng

/-- The numbers below `n` in random order. -/
def order (n : Nat) (rng : ω) : List Nat × ω := shuffle (List.range n) rng

/-- Moves a random one of the remaining entries to each of the positions
`position, position + 1, …`. -/
def selectFrom : Nat → Nat → List Nat → ω → List Nat × ω
  | 0, _, xs, rng => (xs, rng)
  | count + 1, position, xs, rng =>
    let (j, rng) := index position (xs.length - 1) rng
    selectFrom count (position + 1) (exchange xs position j) rng

/-- Adds one number at a time: a random one up to `last`, `last + 1`, …; when it is already there,
the number that it could not have been before takes its place. -/
def insertFrom : Nat → Nat → List Nat → ω → List Nat × ω
  | 0, _, chosen, rng => (chosen, rng)
  | count + 1, last, chosen, rng =>
    let (t, rng) := index 0 last rng
    let chosen := chosen.map fun i => if i = t then last else i
    insertFrom count (last + 1) (chosen ++ [t]) rng

/-- Whether a subset of `m` out of `n` is drawn by exchanges in the whole list of numbers, rather
than by insertion. -/
def prefersExchanges (n m : Nat) : Bool :=
  if m < 163 then
    let size := m.toUInt64.toFloat32
    11 < m && n.toUInt64.toFloat32 < (10 + 1.6 * size) * size
  else true

/-- A random subset of `m` of the numbers below `n`, in no particular order. -/
def subset (n m : Nat) (rng : ω) : List Nat × ω :=
  if prefersExchanges n m then
    let (xs, rng) := selectFrom m 0 (List.range n) rng
    (xs.take m, rng)
  else insertFrom m (n - m) [] rng

theorem exchange_perm {β : Type} (xs : List β) (i j : Nat) : (exchange xs i j).Perm xs := by
  unfold exchange
  split
  · rename_i x y hx hy
    obtain ⟨hi, rfl⟩ := List.getElem?_eq_some_iff.1 hx
    obtain ⟨hj, rfl⟩ := List.getElem?_eq_some_iff.1 hy
    exact List.set_set_perm hi hj
  · exact List.Perm.refl xs

theorem shuffleFrom_perm {β : Type} (count position : Nat) (chunk : IndexChunk) (xs : List β)
    (rng : ω) : (shuffleFrom count position chunk xs rng).1.Perm xs := by
  induction count generalizing position chunk xs rng with
  | zero => exact List.Perm.refl xs
  | succ count ih => exact (ih _ _ _ _).trans (exchange_perm xs _ _)

theorem shuffle_perm {β : Type} (xs : List β) (rng : ω) : (shuffle xs rng).1.Perm xs := by
  unfold shuffle
  split
  · exact List.Perm.refl xs
  · exact shuffleFrom_perm _ _ _ _ _

theorem order_perm (n : Nat) (rng : ω) : (order n rng).1.Perm (List.range n) :=
  shuffle_perm _ _

end PathSelection.Draw
