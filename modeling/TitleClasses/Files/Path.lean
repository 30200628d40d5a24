import TitleClasses.Text.Basic

/-!
# Paths

A path is a root, which is empty for a relative path, and the names that lead from there to a file.
Repeated slashes and names of a single dot say nothing and are left out; names of two dots are kept,
since only the file system tells where they lead. A path can also be taken verbatim: a slash at the end
of a text then asks for a directory.
-/

namespace TitleClasses

/-- The slash between the names of a path. -/
def slash : CodePoint := '/'

/-- The names that lead from the root to a file or a directory. -/
abbrev Place := List Text

/-- A path. -/
structure Path where
  root : Text
  names : List Text
deriving DecidableEq, Repr

namespace Path

/-- The name that leads up. -/
def up : Text := ".."

/-- Whether a name says nothing: it is empty or a single dot. -/
def isIdle (name : Text) : Bool := name.isEmpty || name = (("." : String) : Text)

/-- The names in a text, without those that say nothing. -/
def namesOf (t : Text) : List Text := (t.splitAt slash).filter fun name => !isIdle name

/-- The root at the front of a text: exactly two slashes are a root of their own. -/
def rootOf (t : Text) : Text :=
  match (t.takeWhile fun c => c = slash).length with
  | 0 => []
  | 2 => [slash, slash]
  | _ => [slash]

/-- The path that a text names. -/
def ofText (t : Text) : Path := ⟨rootOf t, namesOf t⟩

/-- The path that a text names, with every name in it, also those that say nothing. -/
def verbatim (t : Text) : Path :=
  let root := rootOf t
  ⟨root, Text.splitAt slash (t.drop root.length)⟩

/-- The text of a path. -/
def toText (p : Path) : Text :=
  if p.root.isEmpty && p.names.isEmpty then "." else p.root ++ Text.join [slash] p.names

/-- Whether a path begins at a root. -/
def isAbsolute (p : Path) : Bool := !p.root.isEmpty

/-- A path taken from another one on, unless it begins at a root itself. -/
def under (p base : Path) : Path :=
  if p.isAbsolute then p else ⟨base.root, base.names ++ p.names⟩

/-- The path without its last name. -/
def parent (p : Path) : Path := ⟨p.root, p.names.dropLast⟩

/-- The last name of a path. -/
def name (p : Path) : Text := p.names.getLast?.getD []

/-- The path with one name more. -/
def child (p : Path) (name : Text) : Path := ⟨p.root, p.names ++ [name]⟩

/-- The names that are left when each name of two dots takes the one before it away. -/
def collapse (names : List Text) : List Text :=
  names.foldl (fun done name => if name = up then done.dropLast else done ++ [name]) []

end Path

end TitleClasses
