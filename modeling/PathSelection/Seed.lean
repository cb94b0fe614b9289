namespace PathSelection

/-- The hash of a byte string, from the hash of what stands before it. -/
def hashFrom (state : UInt64) (bytes : List UInt8) : UInt64 :=
  bytes.foldl (fun h b => (h ^^^ b.toUInt64) * 1099511628211) state

def hashLabel (bytes : List UInt8) : UInt64 := hashFrom 14695981039346656037 bytes

/-- Scrambles a word: one step of a counter, then two rounds of shift and multiplication. -/
def scramble (x : UInt64) : UInt64 :=
  let z := x + 0x9e3779b97f4a7c15
  let z := (z ^^^ (z >>> 30)) * 0xbf58476d1ce4e5b9
  let z := (z ^^^ (z >>> 27)) * 0x94d049bb133111eb
  z ^^^ (z >>> 31)

/-- The seed of a component: a mix of the master seed and a hash of its label. -/
def deriveSeed (master : UInt64) (label : String) : UInt64 :=
  scramble (master ^^^ hashLabel label.toUTF8.toList)

/-- Hands out the seeds of one run. -/
structure SeedSequence where
  master : UInt64
  deriving Repr, DecidableEq

namespace SeedSequence

def seedFor (s : SeedSequence) (family : String) (index : Nat) : UInt64 :=
  deriveSeed s.master (family ++ "/" ++ toString index)

/-- The sequence of one repetition of a run. -/
def repetition (s : SeedSequence) (index : Nat) : SeedSequence :=
  ⟨deriveSeed s.master ("repetition/" ++ toString index)⟩

end SeedSequence

end PathSelection
