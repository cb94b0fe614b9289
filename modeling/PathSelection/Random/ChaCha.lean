import PathSelection.Random.Word

namespace PathSelection.ChaCha

/-- Four words side by side. -/
structure Row where
  a : UInt32
  b : UInt32
  c : UInt32
  d : UInt32
  deriving Repr, DecidableEq

namespace Row

def add (x y : Row) : Row := ⟨x.a + y.a, x.b + y.b, x.c + y.c, x.d + y.d⟩

def xor (x y : Row) : Row := ⟨x.a ^^^ y.a, x.b ^^^ y.b, x.c ^^^ y.c, x.d ^^^ y.d⟩

/-- Turns each word to the left by the given number of bits. -/
def turn (n : UInt32) (x : Row) : Row :=
  let rotate (w : UInt32) : UInt32 := (w <<< n) ||| (w >>> (32 - n))
  ⟨rotate x.a, rotate x.b, rotate x.c, rotate x.d⟩

/-- Moves each word one place to the left. -/
def shift (x : Row) : Row := ⟨x.b, x.c, x.d, x.a⟩

def toList (x : Row) : List UInt32 := [x.a, x.b, x.c, x.d]

end Row

/-- Sixteen words in four rows. -/
structure Block where
  first : Row
  second : Row
  third : Row
  fourth : Row
  deriving Repr, DecidableEq

namespace Block

/-- Mixes each column. -/
def mixColumns (m : Block) : Block :=
  let first := m.first.add m.second
  let fourth := (m.fourth.xor first).turn 16
  let third := m.third.add fourth
  let second := (m.second.xor third).turn 12
  let first := first.add second
  let fourth := (fourth.xor first).turn 8
  let third := third.add fourth
  let second := (second.xor third).turn 7
  ⟨first, second, third, fourth⟩

/-- Mixes the columns, then the diagonals, which become columns when the rows are moved. -/
def doubleRound (m : Block) : Block :=
  let m := m.mixColumns
  let m : Block := ⟨m.first, m.second.shift, m.third.shift.shift, m.fourth.shift.shift.shift⟩
  let m := m.mixColumns
  ⟨m.first, m.second.shift.shift.shift, m.third.shift.shift, m.fourth.shift⟩

def add (x y : Block) : Block :=
  ⟨x.first.add y.first, x.second.add y.second, x.third.add y.third, x.fourth.add y.fourth⟩

def toList (m : Block) : List UInt32 :=
  m.first.toList ++ m.second.toList ++ m.third.toList ++ m.fourth.toList

/-- Six double rounds, added to the block that they started from. -/
def stream (m : Block) : List UInt32 :=
  let mixed := m.doubleRound.doubleRound.doubleRound.doubleRound.doubleRound.doubleRound
  (mixed.add m).toList

end Block

end PathSelection.ChaCha

namespace PathSelection

/-- The generator: its key, the number of the next block, and the words that are left of the last
one. -/
structure ChaCha where
  key : ChaCha.Row × ChaCha.Row
  counter : UInt64
  pending : List UInt32
  deriving Repr

namespace ChaCha

/-- One step of the generator that spreads a seed over the key. -/
def expand (state : UInt64) : UInt32 × UInt64 :=
  let state := state * 6364136223846793005 + 11634580027462260723
  let x := (((state >>> 18) ^^^ state) >>> 27).toUInt32
  let n := (state >>> 59).toUInt32
  ((x >>> n) ||| (x <<< ((32 - n) % 32)), state)

/-- Four key words from a seed state. -/
def expandRow (state : UInt64) : Row × UInt64 :=
  let (a, state) := expand state
  let (b, state) := expand state
  let (c, state) := expand state
  let (d, state) := expand state
  (⟨a, b, c, d⟩, state)

/-- The generator of a seed. -/
def ofSeed (seed : UInt64) : ChaCha :=
  let (low, state) := expandRow seed
  let (high, _) := expandRow state
  ⟨(low, high), 0, []⟩

/-- The block with the given number before mixing. -/
def block (key : Row × Row) (counter : UInt64) : Block :=
  ⟨⟨0x61707865, 0x3320646e, 0x79622d32, 0x6b206574⟩, key.1, key.2,
    ⟨counter.toUInt32, (counter >>> 32).toUInt32, 0, 0⟩⟩

/-- The next word of the stream. -/
def next (g : ChaCha) : UInt32 × ChaCha :=
  match g.pending with
  | w :: rest => (w, { g with pending := rest })
  | [] =>
    match (block g.key g.counter).stream with
    | w :: rest => (w, ⟨g.key, g.counter + 1, rest⟩)
    | [] => (0, ⟨g.key, g.counter + 1, []⟩)

instance : WordSource ChaCha where
  next32 := next
  next64 g :=
    let (low, g) := g.next
    let (high, g) := g.next
    (low.toUInt64 ||| (high.toUInt64 <<< 32), g)

end ChaCha

end PathSelection
