import TitleClasses.Command.Printed
import TitleClasses.Proofs.Command.Markup

/-!
# Sheets

What is printed is put together of `Fragment`s: words of the program, figures, and data, which is escaped or
stands as it is. A `Sheet` tells a line or a table fragment by fragment. Since escaping never makes a text
shorter, a sheet is printed as with all of its data escaped exactly when each of its fragments is
(`Sheet.printed_eq_literal_iff`): there is nothing to escape in the data that stands as it is.
-/

namespace TitleClasses

/-! ### Fragments -/

/-- A part of what is printed: words of the program, with their markup; a number or a time that the program
has written; and data, which is escaped or stands as it is. -/
inductive Fragment where
  | words (s : String)
  | figure (t : Text)
  | escaped (t : Text)
  | bare (t : Text)

namespace Fragment

/-- A fragment as it is printed. -/
def printed : Fragment → Text
  | .words s => s
  | .figure t | .bare t => t
  | .escaped t => Markup.escape t

/-- A fragment with its data escaped. -/
def literal : Fragment → Text
  | .words s => s
  | .figure t => t
  | .escaped t | .bare t => Markup.escape t

/-- Whether there is nothing to escape in a fragment that is not escaped. -/
def Safe : Fragment → Prop
  | .bare t => Markup.Inert t
  | _ => True

@[simp] theorem safe_words (s : String) : (words s).Safe := trivial

@[simp] theorem safe_figure (t : Text) : (figure t).Safe := trivial

@[simp] theorem safe_escaped (t : Text) : (escaped t).Safe := trivial

@[simp] theorem safe_bare_iff (t : Text) : (bare t).Safe ↔ Markup.Inert t := Iff.rfl

theorem length_le (p : Fragment) : p.printed.length ≤ p.literal.length := by
  cases p with
  | bare t => exact Markup.length_le_escape t
  | _ => exact Nat.le_refl _

theorem printed_eq_literal_iff (p : Fragment) : p.printed = p.literal ↔ p.Safe := by
  cases p with
  | bare t => exact eq_comm.trans Markup.escape_eq_self_iff
  | _ => exact iff_of_true rfl trivial

end Fragment

/-- What stands in one place: fragments one after another. -/
abbrev Cell := List Fragment

namespace Cell

theorem length_le (c : Cell) : (c.flatMap Fragment.printed).length ≤ (c.flatMap Fragment.literal).length := by
  induction c with
  | nil => exact Nat.le_refl 0
  | cons p c ih =>
    rw [List.flatMap_cons, List.flatMap_cons, List.length_append, List.length_append]
    exact Nat.add_le_add p.length_le ih

/-- Fragments one after another are printed as with all their data escaped exactly if each of them is. -/
theorem printed_eq_literal_iff (c : Cell) :
    c.flatMap Fragment.printed = c.flatMap Fragment.literal ↔ ∀ p ∈ c, p.Safe := by
  induction c with
  | nil => simp
  | cons p c ih =>
    rw [List.flatMap_cons, List.flatMap_cons, List.forall_mem_cons, ← ih, ← p.printed_eq_literal_iff]
    refine ⟨fun h => ?_, fun h => by rw [h.1, h.2]⟩
    -- Neither part is longer than its escaped form, so that both have the same length as theirs.
    have hlength := congrArg List.length h
    rw [List.length_append, List.length_append] at hlength
    have hp := p.length_le
    have hc := length_le c
    exact List.append_inj h (by omega)

/-- Data, or words if there is none. -/
def orWords (s : String) (fragment : Text → Fragment) (t : Text) : Cell :=
  if t.isEmpty then [.words s] else [fragment t]

theorem printed_orWords_escaped (s : String) (t : Text) :
    (orWords s .escaped t).flatMap Fragment.printed = Markup.escapeOr s t := by
  have hempty : (Markup.escape t).isEmpty = t.isEmpty := by
    have hle := Markup.length_le_escape t
    cases t with
    | nil => rfl
    | cons c t =>
      refine (List.isEmpty_eq_false_iff.mpr fun hnil => ?_).trans rfl
      rw [hnil] at hle
      cases hle
  unfold orWords Markup.escapeOr
  rw [hempty]
  split_ifs <;> exact List.append_nil _

theorem printed_orWords_bare (s : String) (t : Text) :
    (orWords s .bare t).flatMap Fragment.printed = if t.isEmpty then (s : Text) else t := by
  unfold orWords
  split_ifs <;> exact List.append_nil _

theorem safe_orWords_escaped (s : String) (t : Text) : ∀ p ∈ orWords s .escaped t, p.Safe := by
  unfold orWords
  split_ifs <;> simp

theorem safe_orWords_bare_iff (s : String) (t : Text) :
    (∀ p ∈ orWords s .bare t, p.Safe) ↔ Markup.Inert t := by
  unfold orWords
  split_ifs with hempty
  · rw [List.isEmpty_iff.mp hempty]
    simp [Markup.inert_nil]
  · simp

end Cell

/-! ### Sheets -/

/-- A line or a table of fragments. The title of a table and the headings of its columns are words. -/
inductive Sheet where
  | line (c : Cell)
  | table (title : String) (columns : List String) (rows : List (List Cell))

namespace Sheet

/-- A table with fragments written out. -/
def tableWith (f : Fragment → Text) (title : String) (columns : List String) (rows : List (List Cell)) :
    PrintedTable where
  title := title
  columns := columns.map Text.ofString
  rows := rows.map fun row => row.map fun c => c.flatMap f

/-- A sheet with its fragments written out. -/
def renderWith (f : Fragment → Text) : Sheet → Printed
  | .line c => .line (c.flatMap f)
  | .table title columns rows => .table (tableWith f title columns rows)

/-- A sheet as it is printed. -/
def printed : Sheet → Printed := renderWith Fragment.printed

theorem printed_line (c : Cell) : printed (.line c) = .line (c.flatMap Fragment.printed) := rfl

/-- A table with a row for each item is printed row by row. -/
theorem printed_table_map {α : Type} {cells : α → List Cell} {row : α → List Text}
    (h : ∀ x, (cells x).map (fun c => c.flatMap Fragment.printed) = row x) (title : String)
    (columns : List String) (xs : List α) :
    printed (.table title columns (xs.map cells)) =
      .table ⟨title, columns.map Text.ofString, xs.map row⟩ := by
  have hrows : (xs.map cells).map (fun row => row.map fun c => c.flatMap Fragment.printed) =
      xs.map row := by
    rw [List.map_map]
    exact List.map_congr_left fun x _ => h x
  show Printed.table _ = Printed.table _
  rw [tableWith, hrows]

/-- A sheet with all of its data escaped. -/
def literal : Sheet → Printed := renderWith Fragment.literal

/-- The fragments of a sheet. -/
def fragments : Sheet → List Fragment
  | .line c => c
  | .table _ _ rows => rows.flatten.flatten

/-- Whether there is nothing to escape in the data of a sheet that is not escaped. -/
def Safe (sheet : Sheet) : Prop := ∀ p ∈ sheet.fragments, p.Safe

@[simp] theorem safe_line_iff (c : Cell) : Safe (.line c) ↔ ∀ p ∈ c, p.Safe := Iff.rfl

theorem safe_table_iff (title : String) (columns : List String) (rows : List (List Cell)) :
    Safe (.table title columns rows) ↔ ∀ row ∈ rows, ∀ c ∈ row, ∀ p ∈ c, p.Safe := by
  show (∀ p ∈ rows.flatten.flatten, p.Safe) ↔ _
  simp only [List.mem_flatten]
  constructor
  · exact fun h row hrow c hc p hp => h p ⟨c, ⟨row, hrow, hc⟩, hp⟩
  · rintro h p ⟨c, ⟨row, hrow, hc⟩, hp⟩
    exact h row hrow c hc p hp

/-- A sheet is printed as with all of its data escaped exactly if there is nothing to escape in what is
not. -/
theorem printed_eq_literal_iff (sheet : Sheet) : sheet.printed = sheet.literal ↔ sheet.Safe := by
  cases sheet with
  | line c => exact (Printed.line.injEq _ _).to_iff.trans (Cell.printed_eq_literal_iff c)
  | table title columns rows =>
    show Printed.table _ = Printed.table _ ↔ _
    rw [safe_table_iff, Printed.table.injEq, tableWith, tableWith, PrintedTable.mk.injEq]
    simp only [true_and, List.map_inj_left, Cell.printed_eq_literal_iff]

theorem map_printed_eq_iff (sheets : List Sheet) :
    sheets.map printed = sheets.map literal ↔ ∀ sheet ∈ sheets, sheet.Safe := by
  simp only [List.map_inj_left, printed_eq_literal_iff]

end Sheet

end TitleClasses
