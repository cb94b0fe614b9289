import PathSelection.Metric
import PathSelection.Error
import PathSelection.Text.Split
/-!
The two text formats of measurements. Both skip blank lines and lines that begin with `#`. A
parameter file has a latency, a bandwidth and a loss in each line, and more columns are ignored; a
replay script has one snapshot in each line, three numbers for each path.
-/
namespace PathSelection.Text

/-- What is wrong with a text, and in which line, counted from one. -/
structure Fault where
  line : Nat
  fault : LineFault
  deriving Repr, DecidableEq

/-- Whether a line is read at all. -/
def isSignificant (line : List Char) : Bool :=
  match trim line with
  | [] => false
  | c :: _ => c != '#'

/-- The results of a reader for the significant lines, the first of which has the given number, or
its first fault. -/
def readLines {β : Type} (read : List Char → Except LineFault β) (number : Nat) :
    List (List Char) → Except Fault (List β)
  | [] => .ok []
  | line :: rest =>
    if isSignificant line then
      match read (trim line) with
      | .error fault => .error ⟨number, fault⟩
      | .ok value =>
        match readLines read (number + 1) rest with
        | .error fault => .error fault
        | .ok values => .ok (value :: values)
    else readLines read (number + 1) rest

/-- Numbers in groups of three, if they can be grouped. -/
def triples? {α : Type} : List α → Option (List (Metric α))
  | [] => some []
  | r :: b :: l :: rest => (triples? rest).map (⟨r, b, l⟩ :: ·)
  | _ => none

variable {α : Type} [NumberText α]

/-- The number in the first of some tokens, for the column with the given name. -/
def readColumn (column : String) : List (List Char) → Except LineFault (α × List (List Char))
  | [] => .error (.missingColumn column)
  | token :: rest =>
    match NumberText.read? token with
    | some x => .ok (x, rest)
    | none => .error (.badColumn column token)

def readParameters (line : List Char) : Except LineFault (Metric α) :=
  match readColumn "latency" (words line) with
  | .error fault => .error fault
  | .ok (r, tokens) =>
    match readColumn "bandwidth" tokens with
    | .error fault => .error fault
    | .ok (b, tokens) =>
      match readColumn "loss" tokens with
      | .error fault => .error fault
      | .ok (l, _) => .ok ⟨r, b, l⟩

def parseParameters (text : List Char) : Except Fault (List (Metric α)) :=
  readLines readParameters 1 (lines text)

def readValues : List (List Char) → Except LineFault (List α)
  | [] => .ok []
  | token :: rest =>
    match NumberText.read? token with
    | none => .error (.badValue token)
    | some x =>
      match readValues rest with
      | .error fault => .error fault
      | .ok xs => .ok (x :: xs)

def readSnapshot (line : List Char) : Except LineFault (List (Metric α)) :=
  match readValues (words line) with
  | .error fault => .error fault
  | .ok xs =>
    match triples? xs with
    | some metrics => .ok metrics
    | none => .error (.notTriples xs.length)

def parseReplay (text : List Char) : Except Fault (List (List (Metric α))) :=
  readLines readSnapshot 1 (lines text)

end PathSelection.Text
