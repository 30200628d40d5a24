import TitleClasses.Json.Printer
import TitleClasses.Json.Reader
import TitleClasses.Processed.Row
import TitleClasses.Text.Utf8

/-!
# The table in a file

The bytes of the table of processed documents: a line by which it is told from other files, a byte that
stands in no text, and its rows as a list of lists of texts. So a table is never taken for a text.
-/

namespace TitleClasses.ProcessedRow

open Utf8 (Bytes)

/-- The number of bytes before the one that stands in no text. -/
def markLength : Nat := 102

/-- The name by which a table is told. -/
def markName : Text := "processed documents"

/-- What is at the front of a table: a line of its name, padded with blanks, and a byte that stands in no
text. -/
def front : Bytes :=
  (markName ++ List.replicate (markLength - markName.length - 1) (' ' : CodePoint) ++ "\n").flatMap
    Utf8.encodeOne ++ [0xF8]

/-- The texts of a row. -/
def toJson (r : ProcessedRow) : Json :=
  .list (([r.vocabulary, r.document, r.fingerprint, r.labels, r.classifiedAt] : List Text).map
    Json.text)

/-- The row of five texts. -/
def ofJson? : Json → Option ProcessedRow
  | .list [.text vocabulary, .text document, .text fingerprint, .text labels, .text classifiedAt] =>
    some ⟨vocabulary, document, fingerprint, labels, classifiedAt⟩
  | _ => none

/-- The bytes of a table. -/
def tableBytes (rows : List ProcessedRow) : Bytes :=
  front ++ ((Json.list (rows.map toJson)).write .line).flatMap Utf8.encodeOne

/-- The rows that bytes hold, if they are those of a table. -/
def tableRows? (bytes : Bytes) : Option (List ProcessedRow) :=
  if front.isPrefixOf bytes then
    match Utf8.decode (bytes.drop front.length) with
    | .error _ => none
    | .ok t =>
      match Json.read t with
      | .ok (.list rows) => rows.mapM ofJson?
      | _ => none
  else none

end TitleClasses.ProcessedRow
