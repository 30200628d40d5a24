import TitleClasses.Action
import TitleClasses.Files.Tree

/-!
# The files beside a table

A change of a table is prepared in a journal beside its file. A table may also have a file of changes
ahead of it, with an index; as long as that file is there, the table is what the file holds, and changes
go into it. What stands in the places of these files decides whether the table can be read and whether
it can be changed; an empty file there is as good as none.
-/

namespace TitleClasses.Processed

/-- What follows the name of a table in the name of its journal. -/
def journalEnding : Text := "-journal"

/-- What follows the name of a table in the name of the file of changes ahead. -/
def aheadEnding : Text := "-wal"

/-- What follows the name of a table in the name of the index of that file. -/
def indexEnding : Text := "-shm"

/-- The name of a file beside a table. -/
def companionName (p : Place) (ending : Text) : Text := p.getLast?.getD [] ++ ending

/-- The place of a file beside a table. -/
def companion (p : Place) (ending : Text) : Place := p.dropLast ++ [companionName p ending]

/-- What stands beside a table, unless it is an empty file. -/
def companion? (fs : Files) (p : Place) (ending : Text) : Option Node :=
  match fs.node? (companion p ending) with
  | some (.file []) => none
  | n => n

/-- Takes away a file beside a table. -/
def dropCompanion (p : Place) (ending : Text) : Action Files Unit :=
  Action.update fun fs => fs.dropNode (companion p ending)

/-- Whether there is no table in a file yet: a single byte is as good as none. -/
def isBlank : Node → Bool
  | .file [] | .file [_] => true
  | _ => false

/-- Whether a journal tells of no change: its first byte is zero. -/
def isSpent : Node → Bool
  | .file (b :: _) => b = 0
  | _ => false

/-- Takes away what is left beside a file without a table. -/
def discard (p : Place) : Action Files Unit := do
  let fs ← Action.state
  match companion? fs p journalEnding with
  | none | some .directory => pure ()
  | some _ => dropCompanion p journalEnding
  match companion? fs p aheadEnding with
  | none => pure ()
  | some .directory => Action.fail (.store .diskFault)
  | some _ => dropCompanion p aheadEnding

/-- Takes away a journal that cannot be carried out, and makes the index of changes ahead. -/
def recover (p : Place) : Action Files Unit := do
  let fs ← Action.state
  match companion? fs p journalEnding with
  | none => pure ()
  | some .directory => Action.fail (.store .diskFault)
  | some n => unless isSpent n do dropCompanion p journalEnding
  match companion? fs p aheadEnding with
  | none => pure ()
  | some .directory => Action.fail (.store .cannotOpen)
  | some _ =>
    unless fs.node? (companion p indexEnding) = some .directory do
      Action.update fun fs => fs.setNode (companion p indexEnding) (.file [])

/-- Puts the files beside a table in order before what stands in its file is read. -/
def settle (p : Place) (n : Node) : Action Files Unit :=
  if isBlank n then discard p else recover p

/-- The rows that the changes ahead of a table have made of it. -/
def rowsAhead? (fs : Files) (p : Place) : Option (List ProcessedRow) :=
  match companion? fs p aheadEnding with
  | some (.table rows) => some rows
  | _ => none

/-- Prepares a change of a table, and answers with the place of the file that it goes to. A change ahead
of the table needs the index; any other one needs a journal, which is gone when the change is made. -/
def prepare (p : Place) : Action Files Place := do
  let fs ← Action.state
  match companion? fs p aheadEnding with
  | some _ =>
    if fs.node? (companion p indexEnding) = some .directory then Action.fail (.store .readOnly)
    else pure (companion p aheadEnding)
  | none =>
    if Files.maxName < Files.byteLength (companionName p journalEnding)
        || fs.node? (companion p journalEnding) = some .directory then
      Action.fail (.store .cannotOpen)
    else do
      dropCompanion p journalEnding
      pure p

end TitleClasses.Processed
