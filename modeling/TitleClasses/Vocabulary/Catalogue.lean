import TitleClasses.Action
import TitleClasses.Digest.Fingerprint
import TitleClasses.Files.Tree
import TitleClasses.Json.Keyed
import TitleClasses.Json.Printer
import TitleClasses.Vocabulary.Record

/-!
# Vocabularies in a file

A vocabulary file lists vocabularies, each with a name and records. What is visible of it is what the
last successful loading found: a loading that fails leaves everything as it was, and as long as
nothing was loaded every question loads first. Of vocabularies of one name the last one counts, at the
place of the first; a vocabulary without a name is passed over with a warning.
-/

namespace TitleClasses

/-- A vocabulary. Its name is a text, or a number where the file gives one. -/
structure Vocabulary where
  name : Json
  records : List Record
deriving DecidableEq

namespace Vocabulary

/-- The record at a place of a list of records, whose identifier is its place unless it has one. -/
def recordOf (index : Nat) (entry : Json) : Except Fault Record := do
  let id ← entry.member "id" (.int index)
  let fields ← entry.member "fields" .null
  if fields.holds then
    let ms ← fields.membersFor "items"
    return .ofMembers id.display ms
  else return .ofMembers id.display []

/-- What is hashed for the digest: for each record its identifier and its fields, by increasing name. -/
def digestSource (v : Vocabulary) : Text :=
  (Json.list (v.records.map fun r => .list [.text r.id,
    .object ((r.fields.mergeSort fun a b => Text.notAfter a.1 b.1).map fun f =>
      (f.1, .text f.2))])).write .line

/-- The digest of a vocabulary, which changes with any of its records. -/
def digest (v : Vocabulary) : Text := hashText (v.digestSource.flatMap Utf8.encodeOne)

end Vocabulary

/-- The vocabularies that were loaded, by their names. -/
abbrev Catalogue := Keyed Vocabulary

namespace Catalogue

/-- The vocabulary of a name; where there is none, the fault tells the names there are. -/
def find (c : Catalogue) (name : Json) : Except Fault Vocabulary := do
  match Keyed.get? (← name.asKey) c with
  | some v => return v
  | none =>
    let available ← c.keysText
    throw (.unknownVocabulary name.display (if available.isEmpty then "none" else available))

end Catalogue

/-- A vocabulary file and what was loaded from it. -/
structure VocabularyFile where
  path : Path
  loaded : Option Catalogue

/-- A vocabulary file keeps no log records. -/
instance : LogKeeper VocabularyFile where
  keep _ f := f

namespace VocabularyFile

/-- One entry of the file, added to the catalogue. -/
def readEntry (path : Path) (c : Catalogue) (entry : Json) : Action VocabularyFile Catalogue := do
  let name ← Action.ofExcept (entry.member "name" .null)
  if name.holds then
    let entries ← Action.ofExcept (entry.member "records" (.list []) >>= Json.items)
    let records ← Action.ofExcept (entries.zipIdx.mapM fun (e, i) => Vocabulary.recordOf i e)
    let key ← Action.ofExcept name.asKey
    pure (Keyed.put key ⟨key, records⟩ c)
  else
    Action.note .warning .vocabulary (Text.concat
      ["Ignoring vocabulary without a name in ", path.toText])
    pure c

/-- The entries of the file, added to the catalogue one after another. -/
def readEntries (path : Path) : Catalogue → List Json → Action VocabularyFile Catalogue
  | c, [] => pure c
  | c, e :: es => do
    let c' ← readEntry path c e
    readEntries path c' es

/-- Loads the file as it is now. -/
def reload (fs : Files) : Action VocabularyFile Unit := do
  let path := (← Action.state).path
  unless ← Action.ofExcept (fs.exists? path) do
    Action.fail (.missingFile .vocabulary path.toText)
  let data ← Action.ofExcept (fs.readJson path)
  let entries ← Action.ofExcept (data.member "vocabularies" (.list []) >>= Json.items)
  let c ← readEntries path [] entries
  Action.update fun f => { f with loaded := some c }
  Action.note .info .vocabulary (Text.concat
    ["Loaded ", Text.ofNat c.length, " vocabularies from ", path.toText])

/-- The catalogue, loaded first if it was not yet. -/
def catalogue (fs : Files) : Action VocabularyFile Catalogue := do
  if (← Action.state).loaded.isNone then reload fs
  pure ((← Action.state).loaded.getD [])

/-- The names of the vocabularies. -/
def names (fs : Files) : Action VocabularyFile (List Json) := do
  Action.ofExcept (← catalogue fs).sortedKeys

/-- The vocabulary of a name. -/
def find (fs : Files) (name : Json) : Action VocabularyFile Vocabulary := do
  Action.ofExcept ((← catalogue fs).find name)

/-- The records of the vocabulary of a name. -/
def records (fs : Files) (name : Json) : Action VocabularyFile (List Record) := do
  pure (← find fs name).records

/-- The digest of the vocabulary of a name. -/
def digest (fs : Files) (name : Json) : Action VocabularyFile Text := do
  pure (← find fs name).digest

end VocabularyFile

end TitleClasses
