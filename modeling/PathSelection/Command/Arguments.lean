import PathSelection.Config
/-!
The arguments of the command. An option has a long name after two dashes, a short one after one
dash, or both. Its value follows after an equals sign, directly after a short name, or as the next
argument, which then must not look like an option. Short flags can be written together. Arguments
are taken from left to right, and the first mistake or request for help ends the reading.
-/
namespace PathSelection.Command

/-- What is asked of the command: a configuration, and the script that feeds live paths. -/
structure Request (α : Type) where
  config : Config α
  replay : Option String
  deriving Repr, DecidableEq

inductive Opt where
  | times
  | plays
  | rounds
  | file
  | output
  | threshold
  | delta
  | forever
  | damping
  | seed
  | policy
  | pathType
  | deviation
  | mode
  | gamma
  | rewardOutput
  | leader
  | replay
  | help
  deriving Repr, DecidableEq

def Opt.ofLong? : String → Option Opt
  | "times" => some .times
  | "rounds" => some .rounds
  | "file" => some .file
  | "output" => some .output
  | "threshold" => some .threshold
  | "delta" => some .delta
  | "forever" => some .forever
  | "damping" => some .damping
  | "seed" => some .seed
  | "policy" => some .policy
  | "path-type" => some .pathType
  | "stddev" => some .deviation
  | "mode" => some .mode
  | "gamma" => some .gamma
  | "reward-output" => some .rewardOutput
  | "klucb-leader" => some .leader
  | "replay" => some .replay
  | "help" => some .help
  | _ => none

def Opt.ofShort? : Char → Option Opt
  | 'n' => some .times
  | 'M' => some .plays
  | 'T' => some .rounds
  | 'f' => some .file
  | 'o' => some .output
  | 'D' => some .delta
  | 'F' => some .forever
  | 'd' => some .damping
  | 's' => some .seed
  | 'h' => some .help
  | _ => none

def Opt.isFlag : Opt → Bool
  | .forever | .leader | .help => true
  | _ => false

/-- Why the reading of arguments ends before the last one. -/
inductive Stop where
  | help
  | misuse
  deriving Repr, DecidableEq

/-- What was read so far: the request, the options that were used, and the policies that were asked
for. -/
structure Reading (α : Type) where
  request : Request α
  used : List Opt
  policies : List PolicyKind
  deriving Repr, DecidableEq

/-- A natural number below `2 ^ 64` in decimal digits, with an optional plus sign. -/
def readCount? (cs : List Char) : Option Nat :=
  let ds :=
    match cs with
    | '+' :: rest => rest
    | rest => rest
  if ds ≠ [] ∧ ds.all Char.isDigit then
    let n := ds.foldl (fun n c => 10 * n + (c.toNat - '0'.toNat)) 0
    if n < UInt64.size then some n else none
  else none

/-- The name of a file, which is not empty. -/
def readName? (cs : List Char) : Option String := if cs = [] then none else some (String.ofList cs)

variable {α : Type} [Scalar α] [NumberText α]

/-- The configuration with the value of an option, if the value is one for this option. -/
def setValue? (option : Opt) (value : List Char) (r : Reading α) : Option (Reading α) :=
  let set (c : Config α) : Reading α := { r with request := { r.request with config := c } }
  let c := r.request.config
  let text := String.ofList value
  match option with
  | .times => (readCount? value).map fun n => set { c with repetitions := n }
  | .plays => (readCount? value).map fun n => set { c with plays := n }
  | .rounds => (readCount? value).map fun n => set { c with rounds := n }
  | .delta => (readCount? value).map fun n => set { c with pollMicroseconds := n }
  | .seed => (readCount? value).map fun n => set { c with seed := some n.toUInt64 }
  | .file => (readName? value).map fun name => set { c with parameterFile := name }
  | .output => (readName? value).map fun name => set { c with output := name }
  | .rewardOutput => (readName? value).map fun name => set { c with rewardOutput := some name }
  | .replay =>
    (readName? value).map fun name => { r with request := { r.request with replay := some name } }
  | .threshold => (NumberText.read? value).map fun x => set { c with threshold := x }
  | .damping => (NumberText.read? value).map fun x => set { c with damping := x }
  | .deviation => (NumberText.read? value).map fun x => set { c with deviation := x }
  | .gamma => (NumberText.read? value).map fun x => set { c with gamma := x }
  | .policy =>
    (PolicyKind.parse (α := α) text).toOption.map fun kind =>
      { r with policies := r.policies ++ [kind] }
  | .pathType =>
    (PathKind.parse (α := α) text).toOption.map fun kind => set { c with pathKind := kind }
  | .mode => (RoundMode.parse (α := α) text).toOption.map fun mode => set { c with mode := mode }
  | .forever | .leader | .help => none

def setFlag (option : Opt) (r : Reading α) : Reading α :=
  let c := r.request.config
  match option with
  | .forever => { r with request := { r.request with config := { c with forever := true } } }
  | .leader => { r with request := { r.request with config := { c with leader := true } } }
  | _ => r

/-- Notes the use of an option. All options but the policy are used at most once. -/
def use (option : Opt) (r : Reading α) : Except Stop (Reading α) :=
  if option ≠ .policy ∧ option ∈ r.used then .error .misuse
  else .ok { r with used := option :: r.used }

def takeFlag (option : Opt) (r : Reading α) : Except Stop (Reading α) :=
  if option = .help then .error .help
  else
    match use option r with
    | .error stop => .error stop
    | .ok r => .ok (setFlag option r)

def takeValue (option : Opt) (value : List Char) (r : Reading α) : Except Stop (Reading α) :=
  match use option r with
  | .error stop => .error stop
  | .ok r =>
    match setValue? option value r with
    | none => .error .misuse
    | some r => .ok r

/-- Whether an argument looks like an option; a single dash does not. -/
def looksLikeOption : List Char → Bool
  | '-' :: _ :: _ => true
  | _ => false

/-- How an argument of short names ends: with nothing left to do, or with an option whose value is
the next argument. -/
inductive ShortEnd (α : Type) where
  | done (r : Reading α)
  | awaits (option : Opt) (r : Reading α)

def takeShorts : List Char → Reading α → Except Stop (ShortEnd α)
  | [], r => .ok (.done r)
  | c :: cs, r =>
    match Opt.ofShort? c with
    | none => .error .misuse
    | some option =>
      if option.isFlag then
        match takeFlag option r with
        | .error stop => .error stop
        | .ok r => takeShorts cs r
      else
        match cs with
        | [] => .ok (.awaits option r)
        | '=' :: value => (takeValue option value r).map .done
        | value => (takeValue option value r).map .done

def takeLong (cs : List Char) (r : Reading α) : Except Stop (ShortEnd α) :=
  let name := cs.takeWhile (· ≠ '=')
  match Opt.ofLong? (String.ofList name), cs.drop name.length with
  | none, _ => .error .misuse
  | some option, [] =>
    if option.isFlag then (takeFlag option r).map .done else .ok (.awaits option r)
  | some option, _ :: value =>
    if option.isFlag then .error .misuse else (takeValue option value r).map .done

/-- Reads all arguments. There are no arguments without a name, also not after two dashes. -/
def takeAll : List (List Char) → Reading α → Except Stop (Reading α)
  | [], r => .ok r
  | argument :: rest, r =>
    let taken : Except Stop (ShortEnd α) :=
      match argument with
      | ['-', '-'] => if rest = [] then .ok (.done r) else .error .misuse
      | '-' :: '-' :: cs => takeLong cs r
      | '-' :: c :: cs => takeShorts (c :: cs) r
      | _ => .error .misuse
    match taken with
    | .error stop => .error stop
    | .ok (.done r) => takeAll rest r
    | .ok (.awaits option r) =>
      match rest with
      | [] => .error .misuse
      | value :: rest =>
        if looksLikeOption value then .error .misuse
        else
          match takeValue option value r with
          | .error stop => .error stop
          | .ok r => takeAll rest r

/-- The request in the arguments. Without a choice of policies the standard ones run. -/
def readArguments (arguments : List String) : Except Stop (Request α) :=
  match takeAll (arguments.map String.toList) ⟨⟨Config.standard, none⟩, [], []⟩ with
  | .error stop => .error stop
  | .ok r =>
    if r.policies.isEmpty then .ok r.request
    else .ok { r.request with config := { r.request.config with policies := r.policies } }

end PathSelection.Command
