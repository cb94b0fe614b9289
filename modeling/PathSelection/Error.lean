import PathSelection.Scalar
import PathSelection.Text.Quoted

namespace PathSelection

/-- Why a file cannot be read or written. -/
inductive FileFault where
  | notFound
  | isDirectory
  | notDirectory
  | nameTooLong
  | noSpace
  | nulInName
  | badText
  | other (text : String)
  deriving Repr, DecidableEq

def FileFault.message : FileFault → String
  | .notFound => "No such file or directory (os error 2)"
  | .isDirectory => "Is a directory (os error 21)"
  | .notDirectory => "Not a directory (os error 20)"
  | .nameTooLong => "File name too long (os error 36)"
  | .noSpace => "No space left on device (os error 28)"
  | .nulInName => "file name contained an unexpected NUL byte"
  | .badText => "stream did not contain valid UTF-8"
  | .other text => text

/-- What is wrong with a line of a text file. -/
inductive LineFault where
  | missingColumn (column : String)
  | badColumn (column : String) (token : List Char)
  | badValue (token : List Char)
  | notTriples (count : Nat)
  deriving Repr, DecidableEq

def LineFault.message : LineFault → String
  | .missingColumn column => "missing " ++ column ++ " column"
  | .badColumn column token =>
    "bad " ++ column ++ " value " ++ Text.quoted token ++ ": invalid float literal"
  | .badValue token => "bad value " ++ Text.quoted token ++ ": invalid float literal"
  | .notTriples count => toString count ++ " values is not a list of triples"

/-- The rejected value of a parameter. -/
inductive ParameterValue (α : Type) where
  | number (value : α)
  | text (value : String)
  deriving Repr, DecidableEq

/-- The causes of failure: violated preconditions first, then conditions of files and sources. -/
inductive Error (α : Type) where
  | tooManyPaths (wanted available : Nat)
  | probabilitySum (expected : Nat) (actual : α)
  | roundingCardinality (expected actual : Nat)
  | lengthMismatch (left right : Nat)
  | indexOutOfRange (index length : Nat)
  | invalidParameter (name : String) (value : ParameterValue α)
  | capNotFound
  | unreadableFile (path : String) (fault : FileFault)
  | malformedFile (path : String) (line : Nat) (fault : LineFault)
  | unwritableLog (path : String) (fault : FileFault)
  | sourceUnavailable (details : String)
  | sourceTimeout (waitedMilliseconds wanted reported : Nat)
  deriving Repr, DecidableEq

namespace Error

variable {α : Type}

/-- Whether the error is a violated precondition: a bad parameter or a programming mistake. -/
def isPrecondition : Error α → Bool
  | .tooManyPaths .. | .probabilitySum .. | .roundingCardinality .. | .lengthMismatch ..
  | .indexOutOfRange .. | .invalidParameter .. | .capNotFound => true
  | .unreadableFile .. | .malformedFile .. | .unwritableLog .. | .sourceUnavailable ..
  | .sourceTimeout .. => false

def message [NumberText α] : Error α → String
  | .tooManyPaths wanted available =>
    "cannot select " ++ toString wanted ++ " paths out of " ++ toString available
  | .probabilitySum expected actual =>
    "probability vector sums to " ++ NumberText.plain actual ++ ", expected " ++
      toString expected ++ " (tolerance 1e-3)"
  | .roundingCardinality expected actual =>
    "dependent rounding selected " ++ toString actual ++ " paths, expected " ++ toString expected
  | .lengthMismatch left right =>
    "vector length mismatch: " ++ toString left ++ " != " ++ toString right
  | .indexOutOfRange index length =>
    "path index " ++ toString index ++ " out of range for " ++ toString length ++ " paths"
  | .invalidParameter name (.number value) =>
    "invalid parameter " ++ name ++ "=" ++ NumberText.plain value
  | .invalidParameter name (.text value) => "invalid parameter " ++ name ++ "=" ++ value
  | .capNotFound => "EXP3.M capping threshold alpha not found"
  | .unreadableFile path fault =>
    "cannot read parameter file " ++ path ++ ": " ++ fault.message
  | .malformedFile path line fault =>
    "malformed parameter file " ++ path ++ " line " ++ toString line ++ ": " ++ fault.message
  | .unwritableLog path fault => "cannot write log " ++ path ++ ": " ++ fault.message
  | .sourceUnavailable details => "measurement source unavailable: " ++ details
  | .sourceTimeout waited wanted reported =>
    "measurement source reported " ++ toString reported ++ " paths after " ++ toString waited ++
      " ms, wanted " ++ toString wanted

end Error

/-- Two lengths that have to be equal. -/
def ensureSameLength {α : Type} (left right : Nat) : Except (Error α) Unit :=
  if left = right then .ok () else .error (.lengthMismatch left right)

/-- An index that has to be below a length. -/
def ensureBelow {α : Type} (index length : Nat) : Except (Error α) Unit :=
  if index < length then .ok () else .error (.indexOutOfRange index length)

theorem ensureSameLength_eq_ok {α : Type} {left right : Nat} :
    (ensureSameLength left right : Except (Error α) Unit) = .ok () ↔ left = right := by
  unfold ensureSameLength
  split <;> simp_all

end PathSelection
