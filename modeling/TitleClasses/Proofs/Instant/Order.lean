import Mathlib.Order.Basic
import Mathlib.Tactic.IntervalCases
import TitleClasses.Proofs.Instant

/-!
# Written instants are ordered as the instants

The texts of two instants of universal time are ordered as the time that has passed at them
(`Instant.text_lt_iff`). Both orders are told part by part, from the year to the fraction: the texts since
every part is written in as many digits (`Text.padded_append_lt`), and a fraction that is left out is
followed by a sign before the point (`Instant.fraction_lt`); the time since the days are counted one after
another, from one month and from one year to the next (`Instant.dayOfDate_succ_month`,
`Instant.dayOfDate_succ_year`), and every other part runs within the one before it.
-/

namespace TitleClasses

/-! ### Texts of one width -/

namespace Text

/-- Texts that begin with parts of one width are ordered by those, and by the rest where those are the
same. -/
theorem append_lt_append {a b : Text} (h : a.length = b.length) (x y : Text) :
    a ++ x < b ++ y ↔ a < b ∨ a = b ∧ x < y := by
  induction a generalizing b with
  | nil =>
    obtain rfl : b = [] := List.length_eq_zero_iff.mp h.symm
    simp
  | cons c a ih =>
    obtain ⟨d, b, rfl⟩ := List.exists_cons_of_length_eq_add_one h.symm
    rw [List.cons_append, List.cons_append, List.cons_lt_cons_iff, List.cons_lt_cons_iff,
      ih (Nat.succ.inj h), List.cons.injEq]
    tauto

theorem digit_lt_digit {n m : Nat} (hn : n < 10) (hm : m < 10) : digit n < digit m ↔ n < m := by
  have hall : ∀ a b : Fin 10, digit a < digit b ↔ a < b := by decide
  exact hall ⟨n, hn⟩ ⟨m, hm⟩

/-- Numerals of one width are ordered as their numbers. -/
theorem padded_lt_padded {width n m : Nat} (hw : 1 ≤ width) (hn : n < 10 ^ width) (hm : m < 10 ^ width) :
    padded 10 width n < padded 10 width m ↔ n < m := by
  induction width, hw using Nat.le_induction generalizing n m with
  | base =>
    have hn : n < 10 := by simpa using hn
    have hm : m < 10 := by simpa using hm
    rw [padded_one hn, padded_one hm, List.cons_lt_cons_iff, digit_lt_digit hn hm]
    simp only [List.lt_irrefl, and_false, or_false]
  | succ width hw ih =>
    have hn' : n / 10 < 10 ^ width := by rw [Nat.pow_succ] at hn; omega
    have hm' : m / 10 < 10 ^ width := by rw [Nat.pow_succ] at hm; omega
    obtain ⟨hlength, -, hvalue⟩ := padded_digits hw hn'
    obtain ⟨hlength', -, hvalue'⟩ := padded_digits hw hm'
    have hsame : padded 10 width (n / 10) = padded 10 width (m / 10) ↔ n / 10 = m / 10 :=
      ⟨fun h => by rw [← hvalue, h, hvalue'], fun h => by rw [h]⟩
    have hlast := digit_lt_digit (Nat.mod_lt n (by decide : 0 < 10)) (Nat.mod_lt m (by decide : 0 < 10))
    rw [padded_succ (by decide) hw, padded_succ (by decide) hw,
      append_lt_append (hlength.trans hlength'.symm), ih hn' hm', hsame, List.cons_lt_cons_iff, hlast]
    simp only [List.lt_irrefl, and_false, or_false]
    omega

/-- Texts that begin with numerals of one width are ordered by their numbers, and by the rest where those
are the same. -/
theorem padded_append_lt {width n m : Nat} (hw : 1 ≤ width) (hn : n < 10 ^ width) (hm : m < 10 ^ width)
    (x y : Text) : padded 10 width n ++ x < padded 10 width m ++ y ↔ n < m ∨ n = m ∧ x < y := by
  obtain ⟨hlength, -, hvalue⟩ := padded_digits hw hn
  obtain ⟨hlength', -, hvalue'⟩ := padded_digits hw hm
  have hsame : padded 10 width n = padded 10 width m ↔ n = m :=
    ⟨fun h => by rw [← hvalue, h, hvalue'], fun h => by rw [h]⟩
  rw [append_lt_append (hlength.trans hlength'.symm), padded_lt_padded hw hn hm, hsame]

theorem cons_lt_cons (c : CodePoint) (x y : Text) : c :: x < c :: y ↔ x < y := by simp

end Text

namespace Instant

variable {i j : Instant}

/-! ### Texts of instants -/

/-- A fraction that is left out comes before every other. -/
theorem fraction_lt {n m : Nat} (hn : n < 1000000) (hm : m < 1000000) :
    fractionText n ++ ("+00:00" : Text) < fractionText m ++ ("+00:00" : Text) ↔ n < m := by
  have hpoint : ('+' : CodePoint) < ('.' : CodePoint) := by decide
  have hfraction {k : Nat} (hk : k ≠ 0) (x : Text) :
      fractionText k ++ x = ('.' : CodePoint) :: (Text.padded 10 6 k ++ x) := by
    unfold fractionText
    rw [if_neg hk]
    rfl
  have hzone : fractionText 0 ++ ("+00:00" : Text) = ('+' : CodePoint) :: ("00:00" : Text) := rfl
  by_cases hn0 : n = 0 <;> by_cases hm0 : m = 0
  · subst hn0 hm0
    simp
  · subst hn0
    rw [hzone, hfraction hm0, List.cons_lt_cons_iff]
    simp only [hpoint, true_or, true_iff]
    omega
  · subst hm0
    rw [hzone, hfraction hn0, List.cons_lt_cons_iff]
    have hnot : ¬ ('.' : CodePoint) < ('+' : CodePoint) ∧ ('.' : CodePoint) ≠ ('+' : CodePoint) := by decide
    simp [hnot]
  · rw [hfraction hn0, hfraction hm0, Text.cons_lt_cons, Text.padded_append_lt (by decide) hn hm]
    simp

/-- The text of an instant of universal time, part by part. -/
theorem text_lt_iff_parts (hi : i.Universal) (hj : j.Universal) : i.text < j.text ↔
    i.year < j.year ∨ i.year = j.year ∧ (i.month < j.month ∨ i.month = j.month ∧
      (i.day < j.day ∨ i.day = j.day ∧ (i.hour < j.hour ∨ i.hour = j.hour ∧
        (i.minute < j.minute ∨ i.minute = j.minute ∧ (i.second < j.second ∨ i.second = j.second ∧
          i.micro < j.micro))))) := by
  obtain ⟨hyear, hmonth, hday, hhour, hminute, hsecond⟩ := hi.fits
  obtain ⟨hyear', hmonth', hday', hhour', hminute', hsecond'⟩ := hj.fits
  rw [text_eq hi, text_eq hj]
  simp only [dateText, clockText, two, List.append_assoc, List.cons_append]
  rw [Text.padded_append_lt (by decide) hyear hyear', Text.cons_lt_cons,
    Text.padded_append_lt (by decide) hmonth hmonth', Text.cons_lt_cons,
    Text.padded_append_lt (by decide) hday hday', Text.cons_lt_cons,
    Text.padded_append_lt (by decide) hhour hhour', Text.cons_lt_cons,
    Text.padded_append_lt (by decide) hminute hminute', Text.cons_lt_cons,
    Text.padded_append_lt (by decide) hsecond hsecond', fraction_lt hi.micro hj.micro]

/-! ### Days -/

/-- The days from the first of March of the year zero to that of another year. -/
def marchDay (year : Nat) : Nat := 365 * year + year / 4 - year / 100 + year / 400

theorem isLeap_iff {year : Nat} : isLeap year = true ↔ 4 ∣ year ∧ (¬100 ∣ year ∨ 400 ∣ year) := by
  simp [isLeap, Nat.dvd_iff_mod_eq_zero]

/-- A year from March to March has as many days more as the February at its end. -/
theorem marchDay_succ (year : Nat) :
    marchDay (year + 1) = marchDay year + 365 + if isLeap (year + 1) then 1 else 0 := by
  have hless : year / 100 ≤ year / 4 := Nat.div_le_div_left (by decide) (by decide)
  have hcentury : 400 ∣ year + 1 → 100 ∣ year + 1 := Nat.dvd_trans (by decide)
  have hfourth : 100 ∣ year + 1 → 4 ∣ year + 1 := Nat.dvd_trans (by decide)
  unfold marchDay
  rw [Nat.succ_div, Nat.succ_div, Nat.succ_div]
  generalize year / 4 = a at hless ⊢
  generalize year / 100 = b at hless ⊢
  generalize year / 400 = c
  by_cases h4 : 4 ∣ year + 1 <;> by_cases h100 : 100 ∣ year + 1 <;> by_cases h400 : 400 ∣ year + 1 <;>
    simp only [isLeap_iff, h4, h100, h400, if_true, if_false, true_and, false_and, not_true,
      not_false_eq_true, or_true, true_or, or_self] at hcentury hfourth ⊢ <;> omega

theorem dayOfDate_first (year month : Nat) : dayOfDate year month 1 =
    marchDay (if month ≤ 2 then year - 1 else year) +
      (153 * (if month ≤ 2 then month + 9 else month - 3) + 2) / 5 := Nat.add_sub_cancel _ 1

/-- The days of a month are counted one after another. -/
theorem dayOfDate_eq {year month day : Nat} (hday : 1 ≤ day) :
    dayOfDate year month day = dayOfDate year month 1 + (day - 1) := by
  rw [dayOfDate_first]
  exact Nat.add_sub_assoc hday _

/-- A month begins after the last day of the month before. -/
theorem dayOfDate_succ_month {year month : Nat} (hyear : 1 ≤ year) (hmonth : 1 ≤ month)
    (hlast : month < 12) :
    dayOfDate year (month + 1) 1 = dayOfDate year month 1 + daysIn year month := by
  obtain ⟨y, rfl⟩ := Nat.exists_eq_add_of_le' hyear
  rw [dayOfDate_first, dayOfDate_first]
  by_cases hfebruary : month = 2
  · -- The year from March to March ends with it.
    subst hfebruary
    have := marchDay_succ y
    simp only [daysIn, Nat.add_sub_cancel] at this ⊢
    split_ifs at this ⊢ <;> omega
  · unfold daysIn
    interval_cases month <;> simp at hfebruary ⊢

/-- A year begins after the last day of the year before. -/
theorem dayOfDate_succ_year (year : Nat) :
    dayOfDate (year + 1) 1 1 = dayOfDate year 12 1 + daysIn year 12 := by
  rw [dayOfDate_first, dayOfDate_first]
  simp [daysIn]

/-- A month begins after every day of an earlier one of the same year. -/
theorem dayOfDate_le_month {year month month' : Nat} (hyear : 1 ≤ year) (hmonth : 1 ≤ month)
    (hlater : month + 1 ≤ month') (hlast : month' ≤ 12) :
    dayOfDate year month 1 + daysIn year month ≤ dayOfDate year month' 1 := by
  induction month', hlater using Nat.le_induction with
  | base => exact (dayOfDate_succ_month hyear hmonth hlast).ge
  | succ month' hlater ih =>
    have hnext : dayOfDate year (month' + 1) 1 = dayOfDate year month' 1 + daysIn year month' :=
      dayOfDate_succ_month hyear (by omega) (by omega)
    have := ih (by omega)
    omega

/-- A year begins after every day of an earlier one. -/
theorem dayOfDate_le_year {year year' : Nat} (hyear : 1 ≤ year) (hlater : year + 1 ≤ year') :
    dayOfDate year 12 1 + daysIn year 12 ≤ dayOfDate year' 1 1 := by
  induction year', hlater using Nat.le_induction with
  | base => exact (dayOfDate_succ_year year).ge
  | succ year' hlater ih =>
    have hwithin : dayOfDate year' 1 1 + daysIn year' 1 ≤ dayOfDate year' 12 1 :=
      dayOfDate_le_month (by omega) (by omega) (by omega) (by omega)
    have hnext := dayOfDate_succ_year year'
    omega

/-- Of two dates the one with the earlier year, the earlier month or the earlier day is the earlier day. -/
theorem Universal.day_lt (hi : i.Universal) (hj : j.Universal)
    (h : i.year < j.year ∨ i.year = j.year ∧ (i.month < j.month ∨ i.month = j.month ∧ i.day < j.day)) :
    dayOfDate i.year i.month i.day < dayOfDate j.year j.month j.day := by
  obtain ⟨hyear, hmonth, hday, -⟩ := hi.ranges
  obtain ⟨hyear', hmonth', hday', -⟩ := hj.ranges
  rw [dayOfDate_eq hday.1, dayOfDate_eq hday'.1]
  rcases h with hlt | ⟨heq, hlt | ⟨hsame, hlt⟩⟩
  · -- Between the two dates stand the end of one year and the beginning of the other.
    have hend : dayOfDate i.year i.month 1 + daysIn i.year i.month ≤
        dayOfDate i.year 12 1 + daysIn i.year 12 := by
      rcases hmonth.2.lt_or_eq with hbefore | heq
      · exact (dayOfDate_le_month hyear.1 hmonth.1 hbefore (Nat.le_refl 12)).trans (Nat.le_add_right _ _)
      · rw [heq]
    have hstart : dayOfDate j.year 1 1 ≤ dayOfDate j.year j.month 1 := by
      rcases hmonth'.1.lt_or_eq with hafter | heq
      · exact (Nat.le_add_right _ _).trans (dayOfDate_le_month hyear'.1 (Nat.le_refl 1) hafter hmonth'.2)
      · rw [← heq]
    have hyears := dayOfDate_le_year hyear.1 hlt
    omega
  · rw [← heq]
    have := dayOfDate_le_month hyear.1 hmonth.1 hlt hmonth'.2
    omega
  · rw [← heq, ← hsame]
    omega

/-! ### Time -/

/-- The microseconds that have passed at an instant of universal time, from the first of March of the year
zero. -/
def elapsed (i : Instant) : Nat :=
  (((dayOfDate i.year i.month i.day * 24 + i.hour) * 60 + i.minute) * 60 + i.second) * 1000000 + i.micro

/-- Of two instants the one with the earlier text has less time passed. -/
theorem Universal.elapsed_lt (hi : i.Universal) (hj : j.Universal) (h : i.text < j.text) :
    i.elapsed < j.elapsed := by
  obtain ⟨-, -, -, hhour, hminute, hsecond⟩ := hi.ranges
  have hmicro := hi.micro
  unfold elapsed
  rcases (text_lt_iff_parts hi hj).mp h with hlt | ⟨hyear, hlt | ⟨hmonth, hlt | ⟨hday, hrest⟩⟩⟩
  · have := hi.day_lt hj (Or.inl hlt)
    omega
  · have := hi.day_lt hj (Or.inr ⟨hyear, Or.inl hlt⟩)
    omega
  · have := hi.day_lt hj (Or.inr ⟨hyear, Or.inr ⟨hmonth, hlt⟩⟩)
    omega
  · rw [← hyear, ← hmonth, ← hday]
    omega

theorem text_injective (hi : i.Universal) (hj : j.Universal) (h : i.text = j.text) : i = j := by
  have hread := read_text hi
  rw [h, read_text hj] at hread
  exact (Except.ok.inj hread).symm

/-- The texts of instants of universal time are ordered as the instants. -/
theorem text_lt_iff (hi : i.Universal) (hj : j.Universal) : i.text < j.text ↔ i.elapsed < j.elapsed := by
  refine ⟨hi.elapsed_lt hj, fun h => ?_⟩
  by_contra hnot
  rcases List.le_iff_lt_or_eq.mp (List.not_lt.mp hnot) with hlt | heq
  · exact Nat.lt_asymm h (hj.elapsed_lt hi hlt)
  · rw [text_injective hj hi heq] at h
    exact Nat.lt_irrefl _ h

end Instant

end TitleClasses
