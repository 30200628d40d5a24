import Mathlib.Data.List.DropRight
import Mathlib.Data.List.TakeWhile
import TitleClasses.Text.Basic

/-!
# The words of a text and its normal form

`collapse` puts one space in the place of every run of white space. The words of a text, joined with
single spaces, are the text without white space at its ends, collapsed: `join_words`. Of the characters
that are not white space nothing is lost, and no two blanks stand next to each other:
`mem_collapse_iff`, `collapse_spaced`.
-/

namespace TitleClasses

/-- The space is white space. -/
theorem CodePoint.isBlank_space : CodePoint.isBlank (' ' : Char) = true := by decide

namespace Text

/-- The text with one space in the place of every run of white space. -/
def collapse : Text → Text
  | [] => []
  | c :: r =>
    if c.isBlank then
      if r.head?.any CodePoint.isBlank then collapse r else (' ' : CodePoint) :: collapse r
    else c :: collapse r

/-- A text in which white space is single spaces with something else between any two. -/
def Spaced : Text → Prop
  | [] => True
  | c :: r =>
    (c.isBlank = true → c = (' ' : CodePoint) ∧ r.head?.any CodePoint.isBlank = false) ∧ Spaced r

/-! ### Without white space at the ends -/

theorem isBlank_cons (c : CodePoint) (r : Text) :
    Text.isBlank (c :: r) = (c.isBlank && Text.isBlank r) := rfl

/-- A text that has a character which is not white space is not blank. -/
theorem isBlank_eq_false_of_mem {t : Text} {c : CodePoint} (hc : c ∈ t) (h : c.isBlank = false) :
    t.isBlank = false := by
  unfold isBlank
  rw [List.all_eq_false]
  exact ⟨c, hc, by simp [h]⟩

/-- A blank text has no character that is not white space. -/
theorem not_mem_of_isBlank {t : Text} {c : CodePoint} (ht : t.isBlank = true) (h : c.isBlank = false) :
    c ∉ t := by
  intro hc
  rw [isBlank_eq_false_of_mem hc h] at ht
  cases ht

/-- What is left after the white space at the front of a text is nothing if it is blank. -/
theorem dropWhile_eq_nil_iff (t : Text) : t.dropWhile CodePoint.isBlank = [] ↔ t.isBlank = true := by
  unfold isBlank
  rw [List.dropWhile_eq_nil_iff, List.all_eq_true]

/-- Nothing is left of a text without the white space at its end exactly when it is blank. -/
theorem stripEnd_eq_nil_iff (t : Text) : t.stripEnd = [] ↔ t.isBlank = true := by
  unfold stripEnd
  rw [List.reverse_eq_nil_iff, dropWhile_eq_nil_iff]
  unfold isBlank
  rw [List.all_reverse]

/-- The end of a text is stripped behind its first character, unless all of it is blank. -/
theorem stripEnd_cons (c : CodePoint) (r : Text) :
    stripEnd (c :: r) = if Text.isBlank (c :: r) then [] else c :: stripEnd r := by
  by_cases hb : Text.isBlank (c :: r) = true
  · rw [if_pos hb]
    exact (stripEnd_eq_nil_iff _).mpr hb
  · rw [if_neg hb]
    unfold stripEnd
    rw [List.reverse_cons, List.dropWhile_append]
    by_cases hr : (r.reverse.dropWhile CodePoint.isBlank).isEmpty = true
    · -- The rest is blank, so the first character is not.
      have hrb : Text.isBlank r = true := by
        rw [← stripEnd_eq_nil_iff, stripEnd, List.isEmpty_iff.mp hr, List.reverse_nil]
      have hc : c.isBlank = false := by
        rw [isBlank_cons, hrb, Bool.and_true] at hb
        simpa using hb
      simp [hc, List.isEmpty_iff.mp hr]
    · simp [hr]

theorem strip_of_blank {c : CodePoint} (h : c.isBlank = true) (r : Text) :
    strip (c :: r) = strip r := by
  unfold strip
  rw [List.dropWhile_cons_of_pos h]

theorem strip_of_not_blank {c : CodePoint} (h : c.isBlank = false) (r : Text) :
    strip (c :: r) = c :: stripEnd r := by
  unfold strip
  rw [List.dropWhile_cons_of_neg (by simp [h]), stripEnd_cons, isBlank_cons, h]
  rfl

/-- A text has nothing but white space exactly when nothing is left of it without white space. -/
theorem strip_eq_nil_iff (t : Text) : t.strip = [] ↔ t.isBlank = true := by
  induction t with
  | nil => simp [strip, stripEnd, isBlank]
  | cons c r ih =>
    cases h : c.isBlank with
    | true => rw [strip_of_blank h, ih, isBlank_cons, h, Bool.true_and]
    | false => simp [strip_of_not_blank h, isBlank_cons, h]

/-- A text without white space at its ends has none to strip. -/
theorem strip_strip (t : Text) : t.strip.strip = t.strip := by
  have hend (r : Text) : r.stripEnd.stripEnd = r.stripEnd := by
    unfold stripEnd
    rw [List.reverse_reverse, List.dropWhile_idempotent]
  induction t with
  | nil => rfl
  | cons c r ih =>
    cases h : c.isBlank with
    | true => rw [strip_of_blank h, ih]
    | false => rw [strip_of_not_blank h, strip_of_not_blank h, hend]

/-- Stripping makes no text blank, and no blank text anything else. -/
theorem isBlank_strip (t : Text) : t.strip.isBlank = t.isBlank := by
  rw [Bool.eq_iff_iff, ← strip_eq_nil_iff, strip_strip, strip_eq_nil_iff]

/-- Stripping the end takes away no character that is not white space. -/
theorem mem_stripEnd_iff {c : CodePoint} (h : c.isBlank = false) (t : Text) :
    c ∈ t.stripEnd ↔ c ∈ t := by
  induction t with
  | nil => simp [stripEnd]
  | cons d r ih =>
    rw [stripEnd_cons]
    by_cases hb : Text.isBlank (d :: r) = true
    · rw [if_pos hb]
      have hall : ∀ x ∈ d :: r, x.isBlank = true := by simpa [isBlank] using hb
      constructor
      · intro hc
        cases hc
      · intro hc
        rw [hall c hc] at h
        cases h
    · rw [if_neg hb, List.mem_cons, List.mem_cons, ih]

/-- Stripping takes away no character that is not white space. -/
theorem mem_strip_iff {c : CodePoint} (h : c.isBlank = false) (t : Text) : c ∈ t.strip ↔ c ∈ t := by
  induction t with
  | nil => simp [strip, stripEnd]
  | cons d r ih =>
    cases hd : d.isBlank with
    | true =>
      have hne : c ≠ d := by
        rintro rfl
        rw [h] at hd
        cases hd
      rw [strip_of_blank hd, ih, List.mem_cons]
      simp [hne]
    | false => rw [strip_of_not_blank hd, List.mem_cons, List.mem_cons, mem_stripEnd_iff h]

/-! ### Collapsing -/

theorem collapse_of_not_blank {c : CodePoint} (h : c.isBlank = false) (r : Text) :
    collapse (c :: r) = c :: collapse r := by
  rw [collapse, h]
  rfl

/-- Collapsing keeps every character that is not white space. -/
theorem mem_collapse_iff {c : CodePoint} (h : c.isBlank = false) (t : Text) :
    c ∈ t.collapse ↔ c ∈ t := by
  have hspace : c ≠ (' ' : CodePoint) := by
    rintro rfl
    rw [CodePoint.isBlank_space] at h
    cases h
  induction t with
  | nil => rfl
  | cons d r ih =>
    rw [collapse]
    cases hd : d.isBlank with
    | true =>
      have hne : c ≠ d := by
        rintro rfl
        rw [h] at hd
        cases hd
      by_cases hr : r.head?.any CodePoint.isBlank = true <;> simp [hr, ih, hspace, hne]
    | false => simp [ih]

/-- A collapsed text begins with white space exactly when the text does. -/
theorem head?_collapse_any (t : Text) :
    t.collapse.head?.any CodePoint.isBlank = t.head?.any CodePoint.isBlank := by
  induction t with
  | nil => rfl
  | cons c r ih =>
    rw [collapse]
    cases hc : c.isBlank with
    | true =>
      by_cases hr : r.head?.any CodePoint.isBlank = true
      · simp [hr, ih, hc]
      · simp [hr, hc, CodePoint.isBlank_space]
    | false => simp

/-- In a collapsed text white space is single spaces. -/
theorem collapse_spaced (t : Text) : Spaced t.collapse := by
  induction t with
  | nil => trivial
  | cons c r ih =>
    rw [collapse]
    cases hc : c.isBlank with
    | true =>
      by_cases hr : r.head?.any CodePoint.isBlank = true
      · simpa [hr] using ih
      · simp only [hr, if_true, Bool.false_eq_true, if_false]
        refine ⟨fun _ => ⟨rfl, ?_⟩, ih⟩
        rw [head?_collapse_any]
        simpa using hr
    | false =>
      refine ⟨fun h => ?_, ih⟩
      rw [hc] at h
      cases h

/-- A text in which white space is single spaces is collapsed. -/
theorem collapse_of_spaced {t : Text} (h : Spaced t) : t.collapse = t := by
  induction t with
  | nil => rfl
  | cons c r ih =>
    obtain ⟨hc, hr⟩ := h
    cases hb : c.isBlank with
    | true =>
      obtain ⟨hspace, hnext⟩ := hc hb
      rw [collapse, hb, hnext, ih hr, hspace]
      rfl
    | false => rw [collapse_of_not_blank hb, ih hr]

/-- A text without white space has no white space but single spaces. -/
theorem spaced_of_not_blank {t : Text} (h : ∀ c ∈ t, c.isBlank = false) : Spaced t := by
  induction t with
  | nil => trivial
  | cons c r ih =>
    obtain ⟨hc, hr⟩ := List.forall_mem_cons.mp h
    refine ⟨fun hb => ?_, ih hr⟩
    rw [hc] at hb
    cases hb

/-- Collapsing makes no text blank, and no blank text anything else. -/
theorem isBlank_collapse (t : Text) : t.collapse.isBlank = t.isBlank := by
  induction t with
  | nil => rfl
  | cons c r ih =>
    rw [collapse, isBlank_cons]
    cases hc : c.isBlank with
    | true =>
      by_cases hr : r.head?.any CodePoint.isBlank = true
      · simp [hr, ih]
      · simp [hr, isBlank_cons, CodePoint.isBlank_space, ih]
    | false => simp [isBlank_cons, hc]

/-- Whether the end is stripped first or the runs are collapsed first makes no difference. -/
theorem stripEnd_collapse (t : Text) : t.collapse.stripEnd = t.stripEnd.collapse := by
  induction t with
  | nil => rfl
  | cons c r ih =>
    by_cases hb : Text.isBlank (c :: r) = true
    · -- Nothing is left of a blank text either way.
      have hcollapsed : Text.isBlank (collapse (c :: r)) = true := by rw [isBlank_collapse, hb]
      rw [(stripEnd_eq_nil_iff _).mpr hcollapsed, (stripEnd_eq_nil_iff _).mpr hb]
      rfl
    · rw [stripEnd_cons c r, if_neg hb]
      cases hc : c.isBlank with
      | false =>
        rw [collapse_of_not_blank hc, collapse_of_not_blank hc, stripEnd_cons,
          if_neg (by simp [isBlank_cons, hc]), ih]
      | true =>
        -- What follows the white space is not blank, so that its front stays.
        have hr : Text.isBlank r ≠ true := by simpa [isBlank_cons, hc] using hb
        have hfront : (stripEnd r).head? = r.head? := by
          cases r with
          | nil => rfl
          | cons d s =>
            rw [stripEnd_cons, if_neg hr]
            rfl
        rw [collapse, collapse, hc, hfront]
        by_cases hd : r.head?.any CodePoint.isBlank = true
        · simp only [hd, if_true, ih]
        · have hspaced : Text.isBlank ((' ' : CodePoint) :: collapse r) ≠ true := by
            rw [isBlank_cons, CodePoint.isBlank_space, Bool.true_and, isBlank_collapse]
            exact hr
          simp only [hd, if_true, Bool.false_eq_true, if_false, stripEnd_cons, hspaced, ih]

/-- Whether a text is stripped first or its runs are collapsed first makes no difference. -/
theorem strip_collapse (t : Text) : t.collapse.strip = t.strip.collapse := by
  induction t with
  | nil => rfl
  | cons c r ih =>
    cases hc : c.isBlank with
    | true =>
      rw [strip_of_blank hc, ← ih, collapse, hc]
      by_cases hr : r.head?.any CodePoint.isBlank = true
      · simp only [hr, if_true]
      · simp only [hr, if_true, Bool.false_eq_true, if_false, strip_of_blank CodePoint.isBlank_space]
    | false =>
      rw [collapse_of_not_blank hc, strip_of_not_blank hc, strip_of_not_blank hc,
        collapse_of_not_blank hc, stripEnd_collapse]

/-! ### Words -/

theorem words_of_blank {c : CodePoint} (h : c.isBlank = true) (r : Text) :
    words (c :: r) = words r := by
  rw [words.eq_def]
  simp [h]

/-- A character before white space alone is a word. -/
theorem words_of_last {c : CodePoint} (h : c.isBlank = false) {r : Text} (hr : words r = []) :
    words (c :: r) = [[c]] := by
  unfold words
  cases r <;> simp [h, hr]

/-- A character before a text with words is one more word, or the beginning of the first one. -/
theorem words_of_not_blank {c d : CodePoint} (h : c.isBlank = false) {s w : Text} {ws : List Text}
    (hw : words (d :: s) = w :: ws) :
    words (c :: d :: s) = if d.isBlank then [c] :: w :: ws else (c :: w) :: ws := by
  rw [words.eq_def]
  simp [h, hw]

/-- A text has no words exactly when it is blank. -/
theorem words_eq_nil_iff (t : Text) : t.words = [] ↔ t.isBlank = true := by
  induction t with
  | nil => simp [words, isBlank]
  | cons c r ih =>
    rw [isBlank_cons]
    cases hc : c.isBlank with
    | true => rw [words_of_blank hc, ih, Bool.true_and]
    | false =>
      cases hw : words r with
      | nil => simp [words_of_last hc hw]
      | cons w ws =>
        cases r with
        | nil => simp [words] at hw
        | cons d s =>
          rw [words_of_not_blank hc hw]
          cases d.isBlank <;> simp

theorem join_cons_cons (separator p q : Text) (ps : List Text) :
    join separator (p :: q :: ps) = p ++ separator ++ join separator (q :: ps) := by
  simp [join, List.intercalate]

/-- Joined parts have no characters but those of the parts and of the separator. -/
theorem mem_of_mem_join {separator : Text} {parts : List Text} {c : CodePoint}
    (h : c ∈ join separator parts) : c ∈ separator ∨ ∃ part ∈ parts, c ∈ part := by
  induction parts with
  | nil => cases h
  | cons p ps ih =>
    cases ps with
    | nil => exact .inr ⟨p, List.mem_singleton_self p, by simpa [join] using h⟩
    | cons q ps =>
      rw [join_cons_cons, List.append_assoc, List.mem_append, List.mem_append] at h
      rcases h with hp | hs | hrest
      · exact .inr ⟨p, List.mem_cons_self, hp⟩
      · exact .inl hs
      · exact (ih hrest).imp_right fun ⟨part, hpart, hc⟩ => ⟨part, List.mem_cons_of_mem p hpart, hc⟩

/-- A run of white space that is not at the end of a text collapses to one space. -/
theorem collapse_stripEnd_of_blank {d : CodePoint} (hd : d.isBlank = true) (r : Text) :
    collapse (stripEnd (d :: r)) =
      if Text.isBlank r then [] else (' ' : CodePoint) :: collapse (strip r) := by
  induction r generalizing d with
  | nil => simp [stripEnd_cons, isBlank, hd, collapse]
  | cons e s ih =>
    rw [stripEnd_cons, isBlank_cons d, hd, Bool.true_and]
    by_cases hb : Text.isBlank (e :: s) = true
    · simp [hb, collapse]
    · rw [if_neg hb, if_neg hb, collapse, if_pos hd]
      cases he : e.isBlank with
      | true =>
        -- The run goes on, and the induction takes it up one character later.
        have hs : Text.isBlank s = false := by simpa [isBlank_cons, he] using hb
        rw [strip_of_blank he, ih he, hs]
        rw [stripEnd_cons, if_neg hb]
        simp [he]
      | false =>
        rw [strip_of_not_blank he, stripEnd_cons, if_neg hb]
        simp [he]

/-- The words of a text with single spaces between them are the text without white space at its ends,
with every other run of white space made one space. -/
theorem join_words (t : Text) : join " " t.words = t.strip.collapse := by
  induction t with
  | nil => rfl
  | cons c r ih =>
    cases hc : c.isBlank with
    | true =>
      rw [words_of_blank hc, ih, strip_of_blank hc]
    | false =>
      rw [strip_of_not_blank hc, collapse_of_not_blank hc]
      cases hw : words r with
      | nil =>
        have hs : stripEnd r = [] := (stripEnd_eq_nil_iff _).mpr ((words_eq_nil_iff _).mp hw)
        rw [words_of_last hc hw, hs]
        simp [join, collapse]
      | cons w ws =>
        cases r with
        | nil => simp [words] at hw
        | cons d s =>
          have hb : Text.isBlank (d :: s) = false := by
            rw [Bool.eq_false_iff]
            intro h
            rw [(words_eq_nil_iff _).mpr h] at hw
            cases hw
          rw [words_of_not_blank hc hw]
          rw [hw] at ih
          cases hd : d.isBlank with
          | true =>
            -- The word ends here: the white space after it is one space.
            have hs : Text.isBlank s = false := by simpa [isBlank_cons, hd] using hb
            rw [collapse_stripEnd_of_blank hd, hs, ← strip_of_blank hd, ← ih]
            exact join_cons_cons ..
          | false =>
            have hs : stripEnd (d :: s) = strip (d :: s) := by
              rw [strip_of_not_blank hd, stripEnd_cons, hb]
              rfl
            rw [hs, ← ih]
            cases ws <;> simp [join, List.intercalate]

end Text

end TitleClasses
