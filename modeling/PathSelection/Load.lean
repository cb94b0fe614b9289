import PathSelection.Files
import PathSelection.Source.Replay
import PathSelection.Text.Script

namespace PathSelection

variable {m : Type → Type} [Monad m] [FileStore m] {α β : Type}

def loadText (parse : List Char → Except Text.Fault β) (path : String) :
    m (Except (Error α) β) := do
  match ← FileStore.readText path with
  | .error fault => pure (.error (.unreadableFile path fault))
  | .ok text =>
    match parse text.toList with
    | .error fault => pure (.error (.malformedFile path fault.line fault.fault))
    | .ok value => pure (.ok value)

variable [NumberText α]

def loadParameters (path : String) : m (Except (Error α) (List (Metric α))) :=
  loadText Text.parseParameters path

def loadReplay (path : String) : m (Except (Error α) (Replay α)) := do
  match ← loadText Text.parseReplay path with
  | .error e => pure (.error e)
  | .ok script => pure (.ok (Replay.new script))

end PathSelection
