import TitleClasses.Fault
import TitleClasses.Files.Path
import TitleClasses.Log.Open
import TitleClasses.Processed.Stored

/-!
# The file system

A file system is a working directory and what stands at each place of it; a place is the list of names
that lead there from the root. A path is followed name by name, and every name but the last must be
that of a directory. A table of processed documents is a file of its own kind. A log may be open on one
of the files: what it has added stands at the end of that file.

Every change gives a new file system; the one before is untouched.
-/

namespace TitleClasses

open Utf8 (Bytes)

/-- What stands at a place. -/
inductive Node where
  | file (bytes : Bytes)
  | directory
  | table (rows : List ProcessedRow)
deriving DecidableEq

/-- A file system: the working directory, what was put at each place, how many temporary files were
made, and the log that is open. The root is a directory and is not listed. -/
structure Files where
  home : Place
  nodes : List (Place × Node)
  temporaries : Nat
  log : Option OpenLog

namespace Files

/-- The longest name a file can have, in bytes. -/
def maxName : Nat := 255

/-- The longest path that can be followed, in bytes. -/
def maxPath : Nat := 4095

/-- A file system with nothing in it but its root. -/
def bare (home : Place) : Files := ⟨home, [], 0, none⟩

/-- What was put at a place, with what the open log has added to it. -/
def withLog (fs : Files) (p : Place) (n : Node) : Node :=
  match fs.log, n with
  | some l, .file bytes => if l.place = p then .file (bytes ++ l.bytes) else n
  | _, _ => n

/-- What stands at a place. -/
def node? (fs : Files) (p : Place) : Option Node :=
  if p.isEmpty then some .directory else (fs.nodes.lookup p).map (fs.withLog p)

/-- Puts something at a place, instead of what was there. A log that is open on the file stays with
it. -/
def setNode (fs : Files) (p : Place) (n : Node) : Files :=
  { fs with
    nodes := (fs.nodes.filter fun entry => entry.1 ≠ p) ++ [(p, n)]
    log := fs.log.map fun l => if l.place = p then l.restart else l }

/-- Takes away what stands at a place. A log that is open on it has no file any more. -/
def dropNode (fs : Files) (p : Place) : Files :=
  { fs with
    nodes := fs.nodes.filter fun entry => entry.1 ≠ p
    log := fs.log.filter fun l => l.place ≠ p }

/-- Takes away what stands at a place and everything below it. -/
def dropTree (fs : Files) (p : Place) : Files :=
  { fs with
    nodes := fs.nodes.filter fun entry => !p.isPrefixOf entry.1
    log := fs.log.filter fun l => !p.isPrefixOf l.place }

/-- The log that is open takes the records that are made. -/
instance : LogKeeper Files where
  keep log fs := { fs with log := fs.log.map fun l => l.take log }

/-- Closes the log; what it has added stays in its file. -/
def closeLog (fs : Files) : Files :=
  match fs.log with
  | none => fs
  | some l =>
    match fs.node? l.place with
    | none => { fs with log := none }
    | some n => { fs.setNode l.place n with log := none }

/-- The number of bytes of a text. -/
def byteLength (t : Text) : Nat := (t.flatMap Utf8.encodeOne).length

/-- Follows names from a place on. The place reached need not exist, all before it must be
directories; a name that says nothing leads from a directory to itself. -/
def follow (fs : Files) : Place → List Text → Except Refusal Place
  | p, [] => .ok p
  | p, name :: names =>
    match fs.node? p with
    | none => .error .absent
    | some .directory =>
      if Path.isIdle name then follow fs p names
      else if name = Path.up then follow fs p.dropLast names
      else if maxName < byteLength name then .error .nameTooLong
      else follow fs (p ++ [name]) names
    | some _ => .error .notDirectory

/-- The place that a path leads to. -/
def place (fs : Files) (p : Path) : Except Refusal Place :=
  if maxPath < byteLength p.toText then .error .nameTooLong
  else fs.follow (if p.isAbsolute then [] else fs.home) p.names

/-- Opens a log on its file, in place of the one that was open. -/
def openLog (fs : Files) (routing : LogRouting) (time : Text) : Files :=
  match fs.place routing.file with
  | .error _ => fs.closeLog
  | .ok p => { fs.closeLog with log := some ⟨p, routing, time, []⟩ }

/-- The path of a place. -/
def pathOf (p : Place) : Path := ⟨[slash], p⟩

/-- The absolute path of a path, by its names alone. -/
def absolute (fs : Files) (p : Path) : Path :=
  ⟨if p.isAbsolute then p.root else [slash],
    Path.collapse (if p.isAbsolute then p.names else fs.home ++ p.names)⟩

/-- The path that begins at the single root and leads where a path leads, by its names alone. -/
def resolve (fs : Files) (p : Path) : Path := pathOf (fs.absolute p).names

/-- What a path leads to, or why it leads nowhere. -/
def nodeAt (fs : Files) (p : Path) : Except Refusal Node :=
  match fs.place p with
  | .error r => .error r
  | .ok q =>
    match fs.node? q with
    | none => .error .absent
    | some n => .ok n

/-- What a text leads to that is taken verbatim; an empty one leads nowhere, and none can hold a null. -/
def look (fs : Files) (t : Text) : Except Fault (Except Refusal Node) :=
  if t.any fun c => c.val = 0 then .error .nullByte
  else .ok (if t.isEmpty then .error .absent else fs.nodeAt (.verbatim t))

/-- Whether a path leads anywhere. Only a name that is too long for any file is a fault. -/
def exists? (fs : Files) (p : Path) : Except Fault Bool :=
  match fs.nodeAt p with
  | .ok _ => .ok true
  | .error .nameTooLong => .error (.refused .nameTooLong p.toText none)
  | .error _ => .ok false

/-- Whether a path leads to a directory. -/
def isDirectory (fs : Files) (p : Path) : Bool :=
  match fs.nodeAt p with
  | .ok .directory => true
  | _ => false

/-- The bytes of the file that a path leads to. -/
def readBytes (fs : Files) (p : Path) : Except Fault Bytes :=
  match fs.nodeAt p with
  | .error r => .error (.refused r p.toText none)
  | .ok .directory => .error (.refused .isDirectory p.toText none)
  | .ok (.file bytes) => .ok bytes
  | .ok (.table rows) => .ok (ProcessedRow.tableBytes rows)

/-- The text of the file that a path leads to, every line end made a line feed. -/
def readText (fs : Files) (p : Path) : Except Fault Text :=
  match fs.readBytes p with
  | .error f => .error f
  | .ok bytes =>
    match Utf8.decode bytes with
    | .error e => .error (.undecodable e)
    | .ok t => .ok t.unifyLineEnds

/-- The value in the file that a path leads to. -/
def readJson (fs : Files) (p : Path) : Except Fault Json :=
  match fs.readText p with
  | .error f => .error f
  | .ok t =>
    match Json.read t with
    | .error e => .error (.unreadable e)
    | .ok v => .ok v

/-- Puts bytes into the file that a path leads to, which is made if it is not there. -/
def writeBytes (fs : Files) (p : Path) (bytes : Bytes) : Except Fault Files :=
  match fs.place p with
  | .error r => .error (.refused r p.toText none)
  | .ok q =>
    match fs.node? q with
    | some .directory => .error (.refused .isDirectory p.toText none)
    | _ => .ok (fs.setNode q (.file bytes))

/-- Makes one directory. -/
def makeDirectory (fs : Files) (p : Path) : Except Refusal Files :=
  match fs.place p with
  | .error r => .error r
  | .ok q =>
    match fs.node? q with
    | some _ => .error .exists
    | none => .ok (fs.setNode q .directory)

/-- Makes a directory unless there is one. -/
def ensureDirectory (fs : Files) (p : Path) : Except Fault Files :=
  match fs.makeDirectory p with
  | .ok fs' => .ok fs'
  | .error r => if fs.isDirectory p then .ok fs else .error (.refused r p.toText none)

/-- Makes a directory and those above it, as far as they are not there. The names of the path are given
last one first. What was made before a fault stays. -/
def ensureAbove (root : Text) : List Text → Files → Except Fault Unit × Files
  | names, fs =>
    let p : Path := ⟨root, names.reverse⟩
    match fs.makeDirectory p with
    | .ok fs' => (.ok (), fs')
    | .error .absent =>
      match names with
      | [] => (.error (.refused .absent p.toText none), fs)
      | _ :: above =>
        match ensureAbove root above fs with
        | (.error f, fs') => (.error f, fs')
        | (.ok (), fs') =>
          match fs'.ensureDirectory p with
          | .ok fs'' => (.ok (), fs'')
          | .error f => (.error f, fs')
    | .error r =>
      if fs.isDirectory p then (.ok (), fs) else (.error (.refused r p.toText none), fs)

/-- Makes a directory and those above it, as far as they are not there. -/
def ensureDirectories (fs : Files) (p : Path) : Except Fault Unit × Files :=
  ensureAbove p.root p.names.reverse fs

/-- The name of a temporary file beside a file: hidden, and told apart by a number. -/
def temporaryName (name : Text) (n : Nat) : Text :=
  Text.concat [".", name, ".TMP", Text.padded 10 5 n]

/-- The path of a temporary file beside a file, in a directory that is found by its names alone. -/
def temporaryPath (fs : Files) (p : Path) (n : Nat) : Path :=
  (fs.absolute p.parent).child (temporaryName p.name n)

/-- How many names are tried for a temporary file. -/
def temporaryTries : Nat := 10000

/-- The first path for a temporary file beside a file, from a number on, where nothing stands, with its
place. -/
def freeTemporary (fs : Files) (p : Path) : Nat → Nat → Except Fault (Path × Place)
  | 0, n => .error (.refused .exists (fs.temporaryPath p n).toText none)
  | tries + 1, n =>
    let temporary := fs.temporaryPath p n
    match fs.place temporary with
    | .error r => .error (.refused r temporary.toText none)
    | .ok q =>
      match fs.node? q with
      | some _ => freeTemporary fs p tries (n + 1)
      | none => .ok (temporary, q)

/-- Makes an empty file beside a file, where nothing stood; the path names it in faults. -/
def createTemporary (fs : Files) (p : Path) : Except Fault (Path × Files) :=
  match fs.freeTemporary p temporaryTries 0 with
  | .error f => .error f
  | .ok (temporary, q) =>
    .ok (temporary, { fs.setNode q (.file []) with temporaries := fs.temporaries + 1 })

/-- Moves a file over another one, or to a place where there is none. -/
def moveOver (fs : Files) (source target : Path) : Except Fault Files :=
  let refuse (r : Refusal) : Except Fault Files :=
    .error (.refused r source.toText (some target.toText))
  match fs.place source, fs.place target with
  | .error r, _ => refuse r
  | _, .error r => refuse r
  | .ok old, .ok new =>
    match fs.node? old, fs.node? new with
    | none, _ => refuse .absent
    | _, some .directory => refuse .isDirectory
    | some n, _ => .ok (((fs.dropNode old).dropNode new).setNode new n)

/-- Takes away the file that a path leads to, if there is one. -/
def removeFile (fs : Files) (p : Path) : Files :=
  match fs.place p with
  | .error _ => fs
  | .ok q => fs.dropNode q

/-- The names in a directory that are matched by a condition, in increasing order; there are none in
what is no directory. -/
def namesIn (fs : Files) (p : Path) (condition : Text → Bool) : List Text :=
  match fs.place p with
  | .error _ => []
  | .ok q =>
    if fs.node? q = some .directory then
      Text.sorted (fs.nodes.filterMap fun entry =>
        match entry.1.getLast? with
        | some name => if entry.1.dropLast = q && condition name then some name else none
        | none => none)
    else []

end Files

end TitleClasses
