import Mathlib.Tactic.SplitIfs
import TitleClasses.Rule.Split

/-!
# The scan of a rule splits it at its signs

`scan` reads a rule from left to right with three accumulators: the alternatives that are complete,
the parts of the open alternative that are complete, and the part that is open. `scan_eq_segments`
says that whatever stands in the accumulators, the scan adds the segments of what is left to read:
the pieces between semicolons, each cut at its plus signs. `split_eq_segments` follows for a whole
rule, with the blank alternative at the end that is dropped.
-/

namespace TitleClasses.Rule

/-- The pieces of a rule between semicolons, each cut at its plus signs. -/
def segments (rule : Text) : List (List Text) :=
  (rule.splitOn orSign).map fun segment => segment.splitOn andSign

/-- A rule has at least one segment. -/
theorem segments_ne_nil (rule : Text) : segments rule ≠ [] := by
  simp [segments, List.splitOn_ne_nil]

/-- The segments of a rule that begins with a semicolon. -/
theorem segments_orSign (r : Text) : segments (orSign :: r) = [[]] :: segments r := by
  simp [segments, List.splitOn_cons_eq_if_modifyHead]

/-- A plus sign at the front puts an empty part before the first segment. -/
theorem segments_andSign (r : Text) :
    segments (andSign :: r) = (segments r).modifyHead fun parts => [] :: parts := by
  have hne : andSign ≠ orSign := by decide
  obtain ⟨s, ss, hs⟩ := List.exists_cons_of_ne_nil (List.splitOn_ne_nil orSign r)
  simp [segments, List.splitOn_cons_eq_if_modifyHead, hne, hs]

/-- Any other character at the front belongs to the first part of the first segment. -/
theorem segments_cons (c : CodePoint) (r : Text) (ho : c ≠ orSign) (ha : c ≠ andSign) :
    segments (c :: r) = (segments r).modifyHead fun parts => parts.modifyHead (c :: ·) := by
  obtain ⟨s, ss, hs⟩ := List.exists_cons_of_ne_nil (List.splitOn_ne_nil orSign r)
  simp [segments, List.splitOn_cons_eq_if_modifyHead, ho, ha, hs]

/-- The loop invariant of the scan: the accumulators hold what precedes the segments of the rest. -/
theorem scan_eq_segments (t : Text) (done : List (List Text)) (parts : List Text) (part : Text) :
    scan done parts part t = done.reverse ++ (segments t).modifyHead fun ps =>
      parts.reverse ++ ps.modifyHead (part.reverse ++ ·) := by
  induction t generalizing done parts part with
  | nil => simp [scan, segments]
  | cons c r ih =>
    obtain ⟨p, ps, hp⟩ := List.exists_cons_of_ne_nil (segments_ne_nil r)
    unfold scan
    split_ifs with ho ha
    · -- The open alternative is complete.
      rw [ih, ho, segments_orSign, hp]
      cases p <;> simp
    · -- The open part is complete.
      rw [ih, ha, segments_andSign, hp]
      cases p <;> simp
    · rw [ih, segments_cons c r ho ha, hp]
      cases p <;> simp

/-- The alternatives of a rule are its segments, but for a blank one at the end. -/
theorem split_eq_segments (rule : Text) : split rule = dropBlankLast (segments rule) := by
  have hid (ps : List Text) : ps.modifyHead (fun part => part) = ps := by cases ps <;> rfl
  have hids (ss : List (List Text)) : ss.modifyHead (fun ps => ps) = ss := by cases ss <;> rfl
  unfold split
  rw [scan_eq_segments]
  simp [hid, hids]

end TitleClasses.Rule
