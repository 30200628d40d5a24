import TitleClasses.Action
import TitleClasses.Document.Json
import TitleClasses.Files.Tree

/-!
# Documents in files

A document is read from a file and written back to it by way of a temporary file beside it, which then
takes its place: at no time is the file half written. When the move is refused the temporary file is
taken away again; when the text has no bytes it stays behind, empty.
-/

namespace TitleClasses

/-- A metadata document: where it is kept, and its tree. -/
structure Document where
  path : Path
  root : Element

namespace Document

/-- The element of a document that is classified. -/
def logical (d : Document) : Element := d.root.logical

/-- The document with its logical element changed. -/
def updateLogical (f : Element → Element) (d : Document) : Document :=
  { d with root := d.root.updateLogical f }

/-- The document at a path of a file system. -/
def load (fs : Files) (path : Path) : Except Fault Document := do
  unless ← fs.exists? path do throw (.missingFile .metadata path.toText)
  let v ← fs.readJson path
  let root ← Element.ofJson v
  return ⟨path, root⟩

/-- Reads the document at a path. -/
def read (path : Path) : Action Files Document := do
  let d ← Action.ofExcept (load (← Action.state) path)
  Action.note .debug .metadata (Text.concat
    ["Read metadata document ", path.toText, " (", d.root.type, ")"])
  pure d

/-- Writes a document to its path. -/
def write (d : Document) : Action Files Unit := do
  let (temporary, made) ← Action.ofExcept ((← Action.state).createTemporary d.path)
  Action.replace made
  match Utf8.encode d.root.render with
  | .error run => Action.fail (.unencodable run)
  | .ok bytes =>
    let filled ← Action.ofExcept (made.writeBytes temporary bytes)
    match filled.moveOver temporary d.path with
    | .ok moved => Action.replace moved
    | .error f =>
      Action.replace (filled.removeFile temporary)
      Action.fail f
  Action.note .debug .metadata (Text.concat ["Wrote metadata document ", d.path.toText])

end Document

end TitleClasses
