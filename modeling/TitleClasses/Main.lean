import TitleClasses.Command.Program

/-!
The command line. It reads the files below the working directory and those that the command line or
the environment name, carries the command line out on them, and puts back what was changed.
-/

open TitleClasses

namespace CommandLine

/-- The variables that settings are taken from. -/
def settingNames : List String := [
  "VOCABULARY_FILE", "VOCABULARY", "CLASS_FIELD", "TERMS_FIELD", "METADATA_TITLE",
  "METADATA_CLASS", "MAX_WORKERS", "LOG_DIR", "LOG_LEVEL", "STATS_FILE", "DB_PATH",
  "PROFILES_FILE", "PYTHON_DOTENV_DISABLED"]

def environment : IO Environment :=
  settingNames.filterMapM fun name => do
    return (← IO.getEnv name).map fun text => ((name : Text), (text : Text))

def stringOf (p : Place) : String := (Files.pathOf p).toText.toString

/-- Directories are followed to this depth. -/
def maxDepth : Nat := 16

/-- Adds what stands at a place, and everything below it, to a file system. -/
def load : Nat → Place → Files → IO Files
  | 0, _, fs => pure fs
  | depth + 1, p, fs => do
    try
      let path ← IO.FS.realPath (stringOf p)
      if ← path.isDir then
        (← path.readDir).foldlM (fun fs entry => load depth (p ++ [(entry.fileName : Text)]) fs)
          (fs.setNode p .directory)
      else if ← path.pathExists then
        let bytes := (← IO.FS.readBinFile path).toList
        pure (fs.setNode p (match ProcessedRow.tableRows? bytes with
          | some rows => .table rows
          | none => .file bytes))
      else pure fs
    catch _ => pure fs

/-- Adds what stands at the places above a place, as far as they exist. -/
def loadAbove (p : Place) (fs : Files) : IO Files :=
  (List.range p.length).foldlM (fun fs n =>
    if n = 0 || (fs.node? (p.take n)).isSome then pure fs else load 1 (p.take n) fs) fs

/-- The file system as far as a command line can reach it. -/
def readFiles (words : List Text) : IO Files := do
  let home := Path.namesOf (← IO.FS.realPath ".").toString
  let start := Files.bare home
  let named := (words.map fun w => (start.resolve (.ofText w)).names).filter fun p =>
    !p.isEmpty && !home.isPrefixOf p
  (home :: named).foldlM (fun fs p => do load maxDepth p (← loadAbove p fs)) start

/-- The words of a command line and the values of the environment, any of which may be a path, with the
paths that the settings name. -/
def reachable (env : Environment) (words : List Text) : IO (List Text) := do
  let given := words ++ env.map Prod.snd
  let fs ← readFiles given
  match Opening.read words with
  | .error _ => pure given
  | .ok (opening, _, _) =>
    match ((Settings.load env (some opening.variableFile)).run fs).result with
    | .error _ => pure given
    | .ok s => pure (given ++ [s.vocabularyFile, Program.logFile s, s.statisticsFile, s.tableFile,
        s.profilesFile].map Path.toText)

/-- Puts bytes into a file by way of another one beside it. -/
def writeFile (p : Place) (bytes : Utf8.Bytes) : IO Unit := do
  let beside := stringOf (p.dropLast ++ [Text.concat [".", p.getLast?.getD [], ".new"]])
  IO.FS.writeBinFile beside ⟨bytes.toArray⟩
  IO.FS.rename beside (stringOf p)

/-- Adds bytes to the end of a file. -/
def extendFile (p : Place) (bytes : Utf8.Bytes) : IO Unit := do
  let handle ← IO.FS.Handle.mk (stringOf p) .append
  handle.write ⟨bytes.toArray⟩

/-- Puts back what was changed. A file that has only grown is added to. -/
def saveFiles (old new : Files) : IO Unit := do
  let new := new.closeLog
  for (p, node) in new.nodes do
    let before := old.node? p
    unless before = some node do
      match before, node with
      | _, .directory => IO.FS.createDirAll (stringOf p)
      | some (.file start), .file bytes =>
        if start.isPrefixOf bytes then extendFile p (bytes.drop start.length)
        else writeFile p bytes
      | _, .file bytes => writeFile p bytes
      | _, .table rows => writeFile p (ProcessedRow.tableBytes rows)
  for (p, _) in old.nodes do
    if (new.node? p).isNone then IO.FS.removeFile (stringOf p)

/-- The present time, which is that of a file made just now. -/
def now : IO Clock := do
  let (_, path) ← IO.FS.createTempFile
  let modified := (← path.metadata).modified
  IO.FS.removeFile path
  pure ⟨modified.sec.toNat * 1000000 + modified.nsec.toNat / 1000, 1⟩

/-- Shows what a part of a session has printed and logged. -/
def report (s : Session) (log : Log) : IO Unit := do
  for p in s.printed do IO.print (Printed.plainText p).toString
  (← IO.getStdout).flush
  match s.routing with
  | none => pure ()
  | some routing => IO.eprint (routing.consoleText log).toString

/-- Goes on with a schedule until the program is stopped. -/
partial def wait (words : List Text) (schedule : Schedule) (s : Session) : IO UInt32 := do
  for _ in [0:schedule.interval.toNat] do IO.sleep 60000
  let old ← readFiles words
  let clock ← now
  let files := match s.routing with
    | none => old
    | some routing => old.openLog routing clock.instant.stampText
  let workplace := { s.office.workplace with files }
  let o := schedule.runOnce.run { s with office := ⟨workplace, clock⟩, printed := [] }
  saveFiles old o.state.files
  report o.state o.log
  match o.result with
  | .ok _ => wait words schedule o.state
  | .error f => do
    IO.eprintln f.message.toString
    pure 1

/-- Carries out a command line. -/
def run (words : List Text) : IO UInt32 := do
  let env ← environment
  let paths ← reachable env words
  let old ← readFiles paths
  let o := (Program.run env (fun _ => none) words).run (.start old (← now))
  saveFiles old o.state.files
  report o.state o.log
  match o.result with
  | .error f => do
    IO.eprintln f.message.toString
    pure 1
  | .ok (.ended (.exit code)) => pure code.toUInt32
  | .ok (.ended (.notice n)) => do
    if n.obstacle = .help then IO.print n.text.toString else IO.eprint n.text.toString
    pure n.obstacle.exitCode.toUInt32
  | .ok (.waiting schedule) => wait paths schedule o.state

end CommandLine

def main (args : List String) : IO UInt32 :=
  CommandLine.run (args.map Text.ofString)
