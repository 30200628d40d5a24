import TitleClasses.Command.Markup

/-!
# What is printed

The program prints lines and tables. Both may hold markup, which is taken out where it cannot be shown.
-/

namespace TitleClasses

/-- A table with a title and a heading for each column. -/
structure PrintedTable where
  title : Text
  columns : List Text
  rows : List (List Text)
deriving DecidableEq, Repr

/-- Something that is printed. -/
inductive Printed where
  | line (t : Text)
  | table (t : PrintedTable)
deriving DecidableEq, Repr

namespace Printed

/-- Cells side by side. -/
def rowText (cells : List Text) : Text :=
  Text.join " | " (cells.map Markup.plain) ++ "\n"

/-- The text of something printed, without markup. -/
def plainText : Printed → Text
  | .line t => Markup.plain t ++ "\n"
  | .table t => rowText [t.title] ++ rowText t.columns ++ (t.rows.flatMap rowText)

end Printed

end TitleClasses
