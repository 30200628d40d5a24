import TitleClasses.Text.Basic

/-!
# Rows of the table of processed documents

A row tells with which fingerprint and which labels a document was last classified for a vocabulary,
and when. Labels and instant are kept in their written form.
-/

namespace TitleClasses

/-- A row; vocabulary and document are its key. -/
structure ProcessedRow where
  vocabulary : Text
  document : Text
  fingerprint : Text
  labels : Text
  classifiedAt : Text
deriving DecidableEq, Repr

end TitleClasses
