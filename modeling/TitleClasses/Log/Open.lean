import TitleClasses.Log.Routing
import TitleClasses.Text.Utf8

/-!
# Open logs

A log that was opened on a file adds a line to it for each record that it takes. It stays with the file
when the file is written anew in its place, and loses it when the file is moved over or taken away.
-/

namespace TitleClasses

/-- A log that is open: the place of its file, where its records go, the time that its lines tell, and
the records taken since the file was last written by anyone else. -/
structure OpenLog where
  place : Place
  routing : LogRouting
  time : Text
  records : Log

namespace OpenLog

/-- The log with the records that it takes of some more. -/
def take (l : OpenLog) (log : Log) : OpenLog :=
  { l with records := l.records ++ log.filter l.routing.admits }

/-- The log after its file was written anew. -/
def restart (l : OpenLog) : OpenLog := { l with records := [] }

/-- The bytes of the line of a record; a record that has no bytes is left out. -/
def lineBytes (l : OpenLog) (record : LogRecord) : Utf8.Bytes :=
  match Utf8.encode (l.routing.fileText (Text.concat [l.time, " | "]) [record]) with
  | .ok bytes => bytes
  | .error _ => []

/-- What the log has added to its file. -/
def bytes (l : OpenLog) : Utf8.Bytes := l.records.flatMap l.lineBytes

end OpenLog

end TitleClasses
