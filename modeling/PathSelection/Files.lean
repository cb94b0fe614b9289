import PathSelection.Error
/-!
Text files by path. Programs read and write them through `FileStore`; a `Directory` is a store that
is a value, in which a path is followed name by name.
-/
namespace PathSelection

/-- A place where text files are kept, in a monad that may have effects. -/
class FileStore (m : Type → Type) where
  readText : String → m (Except FileFault String)
  writeText : String → String → m (Except FileFault Unit)

/-- The files of a working directory, by name. A file elsewhere is kept under its path. There are no
directories below the working directory. -/
structure Directory where
  files : List (String × List UInt8)
  deriving Repr, DecidableEq

/-- A directory that a path leads to. -/
inductive Location where
  /-- The working directory. -/
  | here
  /-- A directory above it. -/
  | above (levels : Nat)
  /-- A directory of the system, by the names that lead to it from the root, the last one first. -/
  | system (names : List String)
  deriving Repr, DecidableEq

namespace Location

/-- The directory that contains a directory; the root contains itself. -/
def parent : Location → Location
  | .here => .above 1
  | .above levels => .above (levels + 1)
  | .system names => .system names.tail

/-- The path of an entry of a directory. -/
def entry (name : String) : Location → String
  | .here => name
  | .above levels => String.join (List.replicate levels "../") ++ name
  | .system names => "/" ++ String.join (names.reverse.map (· ++ "/")) ++ name

/-- The directories at the root of every system. -/
def systemNames : List String :=
  ["bin", "dev", "etc", "home", "lib", "mnt", "opt", "proc", "root", "run", "sbin", "srv", "sys",
    "tmp", "usr", "var"]

end Location

/-- What a name in a directory stands for. -/
inductive Entry where
  | missing
  | file (content : List UInt8)
  | directory (location : Location)
  /-- A device that is empty and drops all that is written to it. -/
  | sink
  /-- A device without space. -/
  | full
  deriving Repr, DecidableEq

/-- The end of a path. -/
inductive Target where
  | directory
  /-- A name in a directory; `slash` tells that a slash follows it. -/
  | entry (location : Location) (name : String) (slash : Bool)
  deriving Repr, DecidableEq

/-- The longest path and the longest name, in bytes. -/
def FileFault.pathLimit : Nat := 4095

@[inherit_doc FileFault.pathLimit]
def FileFault.nameLimit : Nat := 255

namespace Directory

def get? (d : Directory) (path : String) : Option (List UInt8) := d.files.lookup path

/-- The directory with a file replaced or added. -/
def put (d : Directory) (path : String) (content : List UInt8) : Directory :=
  ⟨d.files.filter (fun f => f.1 != path) ++ [(path, content)]⟩

def entry (d : Directory) (location : Location) (name : String) : Entry :=
  match location, name with
  | .system ["dev"], "null" => .sink
  | .system ["dev"], "full" => .full
  | _, _ =>
    if location = .system [] ∧ name ∈ Location.systemNames then .directory (.system [name])
    else
      match d.get? (location.entry name) with
      | some content => .file content
      | none => .missing

/-- The parts of a path between its slashes. -/
def parts : List Char → List (List Char)
  | [] => [[]]
  | c :: cs =>
    if c = '/' then [] :: parts cs
    else
      match parts cs with
      | [] => [[c]]
      | p :: ps => (c :: p) :: ps

def enter (d : Directory) (location : Location) (name : String) : Except FileFault Location :=
  if name = "." then .ok location
  else if name = ".." then .ok location.parent
  else if FileFault.nameLimit < name.utf8ByteSize then .error .nameTooLong
  else
    match d.entry location name with
    | .directory inner => .ok inner
    | .missing => .error .notFound
    | .file _ | .sink | .full => .error .notDirectory

/-- Follows the names of a path, of which there is at least one. -/
def follow (d : Directory) (slash : Bool) : Location → String → List String →
    Except FileFault Target
  | location, name, [] =>
    if name = "." ∨ name = ".." then .ok .directory else .ok (.entry location name slash)
  | location, name, next :: rest =>
    match d.enter location name with
    | .error fault => .error fault
    | .ok inner => follow d slash inner next rest

def target (d : Directory) (path : String) : Except FileFault Target :=
  let ps := parts path.toList
  let absolute := decide (path.toList.head? = some '/')
  if path.toList.contains '\x00' then .error .nulInName
  else if path = "" then .error .notFound
  else if FileFault.pathLimit < path.utf8ByteSize then .error .nameTooLong
  else
    match (ps.filter (· ≠ [])).map String.ofList with
    | [] => .ok .directory
    | name :: rest =>
      d.follow (decide (ps.getLast? = some [])) (if absolute then .system [] else .here) name rest

/-- Reads an entry as text; a slash can only follow a directory. -/
def readEntry (d : Directory) (location : Location) (name : String) (slash : Bool) :
    Except FileFault String :=
  if FileFault.nameLimit < name.utf8ByteSize then .error .nameTooLong
  else
    match d.entry location name, slash with
    | .missing, _ => .error .notFound
    | .directory _, _ => .error .isDirectory
    | _, true => .error .notDirectory
    | .file content, false =>
      match String.fromUTF8? content.toByteArray with
      | some text => .ok text
      | none => .error .badText
    | .sink, false | .full, false => .ok ""

/-- Writes bytes to an entry, new or in place of what it was. Nothing is made under a name that a
slash follows. -/
def writeEntry (d : Directory) (location : Location) (name : String) (slash : Bool)
    (content : List UInt8) : Except FileFault Directory :=
  if slash then .error .isDirectory
  else if FileFault.nameLimit < name.utf8ByteSize then .error .nameTooLong
  else
    match d.entry location name with
    | .directory _ => .error .isDirectory
    | .sink => .ok d
    | .full => .error .noSpace
    | .missing | .file _ => .ok (d.put (location.entry name) content)

def readText (path : String) (d : Directory) : Except FileFault String :=
  match d.target path with
  | .error fault => .error fault
  | .ok .directory => .error .isDirectory
  | .ok (.entry location name slash) => d.readEntry location name slash

def write (path : String) (content : List UInt8) (d : Directory) : Except FileFault Directory :=
  match d.target path with
  | .error fault => .error fault
  | .ok .directory => .error .isDirectory
  | .ok (.entry location name slash) => d.writeEntry location name slash content

def writeText (path text : String) (d : Directory) : Except FileFault Unit × Directory :=
  match d.write path text.toUTF8.toList with
  | .error fault => (.error fault, d)
  | .ok d => (.ok (), d)

instance : FileStore (StateM Directory) where
  readText path := fun d => (d.readText path, d)
  writeText path text := fun d => d.writeText path text

end Directory

end PathSelection
