import Mathlib.Algebra.Group.Nat.Defs
import TitleClasses.Instant.Reader
import TitleClasses.Proofs.Json.Scalar

/-!
# Instants of universal time

An instant of universal time is read as it was written (`Instant.read_text`). Each of its parts is written
in as many digits as are read for it (`Instant.readDigits_padded`), so that the reader finds what follows
where it is.
-/

namespace TitleClasses

/-- A numeral that is filled up with zeros has its width, is made of digits, and stands for its number. -/
theorem Text.padded_digits {width n : Nat} (hw : 1 ≤ width) (h : n < 10 ^ width) :
    (Text.padded 10 width n).length = width ∧
      (∀ c ∈ Text.padded 10 width n, Json.isDigit c = true) ∧
      Json.digitsValue (Text.padded 10 width n) = n := by
  induction width, hw using Nat.le_induction generalizing n with
  | base =>
    have hone : n < 10 := by simpa using h
    obtain ⟨hd, hv⟩ := Json.isDigit_digit hone
    rw [Text.padded_one hone]
    refine ⟨rfl, by simpa using hd, ?_⟩
    simp only [Json.digitsValue, List.foldl_cons, List.foldl_nil, hv]
    omega
  | succ width hw ih =>
    obtain ⟨hlength, hall, hvalue⟩ := ih (n := n / 10) (by rw [Nat.pow_succ] at h; omega)
    obtain ⟨hd, hv⟩ := Json.isDigit_digit (Nat.mod_lt n (by decide : 0 < 10))
    rw [Text.padded_succ (by decide) hw]
    refine ⟨by rw [List.length_append, hlength]; rfl, ?_, ?_⟩
    · intro c hc
      rcases List.mem_append.mp hc with hc | hc
      · exact hall c hc
      · rw [List.mem_singleton.mp hc]
        exact hd
    · unfold Json.digitsValue at hvalue ⊢
      rw [List.foldl_append, hvalue]
      simp only [List.foldl_cons, List.foldl_nil, hv]
      omega

namespace Instant

/-- Whether an instant is one of universal time: there is such a date and time, to the microsecond. -/
structure Universal (i : Instant) : Prop where
  offset : i.offset = some universal
  possible : i.fault? = none
  micro : i.micro < 1000000

variable {i : Instant}

/-- Every part of an instant runs within its bounds. -/
theorem Universal.ranges (h : i.Universal) : (1 ≤ i.year ∧ i.year ≤ 9999) ∧ (1 ≤ i.month ∧ i.month ≤ 12) ∧
    (1 ≤ i.day ∧ i.day ≤ daysIn i.year i.month) ∧ i.hour ≤ 23 ∧ i.minute ≤ 59 ∧ i.second ≤ 59 := by
  have hpossible := h.possible
  unfold fault? at hpossible
  rw [h.offset] at hpossible
  split at hpossible
  · cases hpossible
  · split_ifs at hpossible
    simp only [Bool.or_eq_true, decide_eq_true_eq, not_or, not_lt] at *
    omega

/-- Every part of an instant has as many digits at most as are written for it. -/
theorem Universal.fits (h : i.Universal) : i.year < 10 ^ 4 ∧ i.month < 10 ^ 2 ∧ i.day < 10 ^ 2 ∧
    i.hour < 10 ^ 2 ∧ i.minute < 10 ^ 2 ∧ i.second < 10 ^ 2 := by
  have hdays : daysIn i.year i.month ≤ 31 := by
    unfold daysIn
    split_ifs <;> omega
  obtain ⟨hyear, hmonth, hday, htime⟩ := h.ranges
  omega

theorem readDigits_padded {width n : Nat} (hw : 0 < width) (h : n < 10 ^ width) (rest : Text) :
    readDigits width (Text.padded 10 width n ++ rest) = some (n, rest) := by
  obtain ⟨hlength, hall, hvalue⟩ := Text.padded_digits hw h
  unfold readDigits
  dsimp only
  rw [List.take_left' hlength, List.drop_left' hlength, hlength, hvalue, List.all_eq_true.mpr hall]
  simp

/-- A part of two digits does not begin with another sign. -/
theorem two_eq_cons {n : Nat} (h : n < 10 ^ 2) :
    ∃ c d, two n = [c, d] ∧ Json.isDigit c = true ∧ Json.isDigit d = true := by
  obtain ⟨hlength, hall, -⟩ := Text.padded_digits (by decide : 0 < 2) h
  obtain ⟨c, d, hcd⟩ := List.length_eq_two.mp hlength
  rw [hcd] at hall
  exact ⟨c, d, hcd, hall c (by simp), hall d (by simp)⟩

theorem ne_of_isDigit {c d : CodePoint} (hc : Json.isDigit c = true) (hd : Json.isDigit d = false) :
    c ≠ d := by
  rintro rfl
  rw [hc] at hd
  cases hd

/-! ### The date -/

/-- The date of an instant as it is written. -/
def dateText (i : Instant) : Text :=
  Text.padded 10 4 i.year ++ hyphen :: (two i.month ++ hyphen :: two i.day)

theorem dateText_length (h : i.Universal) : (dateText i).length = 10 := by
  obtain ⟨hyear, hmonth, hday, -⟩ := h.fits
  unfold dateText two
  simp [(Text.padded_digits (by decide : 0 < 4) hyear).1, (Text.padded_digits (by decide : 0 < 2) hmonth).1,
    (Text.padded_digits (by decide : 0 < 2) hday).1]

theorem dateLength_dateText (h : i.Universal) (rest : Text) : dateLength (dateText i ++ rest) = 10 := by
  obtain ⟨hyear, hmonth, -⟩ := h.fits
  obtain ⟨hlength, -⟩ := Text.padded_digits (by decide : 0 < 4) hyear
  obtain ⟨c, d, hcd, hc, -⟩ := two_eq_cons hmonth
  have hshape : dateText i ++ rest = Text.padded 10 4 i.year ++
      (hyphen :: c :: (d :: hyphen :: two i.day ++ rest)) := by
    unfold dateText
    simp [hcd]
  have hfourth : (dateText i ++ rest)[4]? = some hyphen := by
    rw [hshape, List.getElem?_append_right (by omega), hlength]
    rfl
  have hfifth : (dateText i ++ rest)[5]? = some c := by
    rw [hshape, List.getElem?_append_right (by omega), hlength]
    rfl
  unfold dateLength
  rw [if_pos hfourth, hfifth, if_neg]
  simpa using ne_of_isDigit hc (by decide)

theorem readDate_dateText (h : i.Universal) : readDate (dateText i) = some (i.year, i.month, i.day) := by
  obtain ⟨hyear, hmonth, hday, -⟩ := h.fits
  obtain ⟨c, d, hcd, hc, -⟩ := two_eq_cons hmonth
  have hsign : c ≠ weekSign := ne_of_isDigit hc (by decide)
  have hmonth' : readDigits 2 (c :: d :: hyphen :: two i.day) = some (i.month, hyphen :: two i.day) := by
    have hread := readDigits_padded (by decide : 0 < 2) hmonth (hyphen :: two i.day)
    rwa [show Text.padded 10 2 i.month = [c, d] from hcd] at hread
  have hday' : readDigits 2 (two i.day) = some (i.day, []) := by
    have hread := readDigits_padded (by decide : 0 < 2) hday []
    rwa [List.append_nil] at hread
  unfold readDate dateText
  rw [readDigits_padded (by decide) hyear, hcd]
  simp only [Option.bind_eq_bind, Option.bind_some, skip, List.head?_cons, decide_true, Bool.not_true,
    Bool.false_eq_true, if_false, if_true, List.drop_one, List.tail_cons, List.cons_append,
    List.nil_append, Option.some.injEq, hsign, hmonth', hday']

/-! ### The time -/

/-- The time of day of an instant as it is written. -/
def clockText (i : Instant) : Text :=
  two i.hour ++ (':' : CodePoint) :: (two i.minute ++ (':' : CodePoint) :: (two i.second ++
    fractionText i.micro))

theorem readDigits_two {n : Nat} (h : n < 10 ^ 2) (rest : Text) :
    readDigits 2 (two n ++ rest) = some (n, rest) := readDigits_padded (by decide) h rest

/-- A colon is followed by the next part, and a point by a fraction. -/
theorem readRest_cons (next : Text → Option TimeParts) (c : CodePoint) {r : Text} (hr : r ≠ []) :
    readRest true true next (c :: r) = if c = (':' : CodePoint) then next r
      else if c = ('.' : CodePoint) || c = (',' : CodePoint) then readFraction true r else none := by
  cases r with
  | nil => exact absurd rfl hr
  | cons d r => simp [readRest]

/-- What follows the seconds is nothing, or a fraction of six digits. -/
theorem readRest_fractionText {micro : Nat} (h : micro < 1000000) (next : Text → Option TimeParts) :
    readRest true true next (fractionText micro) = some ⟨[], micro, true⟩ := by
  unfold fractionText
  split_ifs with hzero
  · rw [hzero]
    rfl
  · obtain ⟨hlength, hall, hvalue⟩ := Text.padded_digits (by decide : 0 < 6) h
    show readRest true true next (('.' : CodePoint) :: Text.padded 10 6 micro) = _
    have htake : (Text.padded 10 6 micro).take 6 = Text.padded 10 6 micro :=
      List.take_of_length_le hlength.le
    have hdrop : (Text.padded 10 6 micro).drop 6 = [] := List.drop_of_length_le hlength.le
    have hfraction : readFraction true (Text.padded 10 6 micro) = some ⟨[], micro, true⟩ := by
      unfold readFraction
      dsimp only
      rw [htake, hdrop, if_pos (List.all_eq_true.mpr hall), hvalue, hlength]
      simp [isLeft]
    have hnil : Text.padded 10 6 micro ≠ [] := List.ne_nil_of_length_pos (by omega)
    rw [readRest_cons next _ hnil, if_neg (by decide), if_pos (by decide), hfraction]

/-- A part and what follows it, up to the next part. -/
theorem readParts_two {n k : Nat} (h : n < 10 ^ 2) (rest : Text) (more colons : Bool) :
    readParts more colons (k + 1) (two n ++ rest) =
      (readRest more colons (readParts more colons k) rest).map fun tail =>
        { tail with parts := n :: tail.parts } := by
  rw [readParts, readDigits_two h]
  simp only [Option.bind_eq_bind, Option.bind_some]
  cases readRest more colons (readParts more colons k) rest <;> rfl

theorem readClock_clockText (h : i.Universal) : readClock true (clockText i) =
    some (⟨i.hour, i.minute, i.second, i.micro⟩, true) := by
  obtain ⟨-, -, -, hhour, hminute, hsecond⟩ := h.fits
  obtain ⟨hlength, -⟩ := Text.padded_digits (by decide : 0 < 2) hhour
  have hcolon : (clockText i)[2]? = some (':' : CodePoint) := by
    unfold clockText two
    rw [List.getElem?_append_right hlength.le, hlength]
    rfl
  have hnext {n : Nat} (hn : n < 10 ^ 2) (rest : Text) (k : Nat) :
      readRest true true (readParts true true k) ((':' : CodePoint) :: (two n ++ rest)) =
        readParts true true k (two n ++ rest) := by
    obtain ⟨c, d, hcd, -⟩ := two_eq_cons hn
    have hne : two n ++ rest ≠ [] := by
      rw [hcd]
      exact List.cons_ne_nil _ _
    rw [readRest_cons _ _ hne, if_pos rfl]
  unfold readClock
  rw [decide_eq_true hcolon]
  unfold clockText
  rw [readParts_two hhour, hnext hminute, readParts_two hminute, hnext hsecond, readParts_two hsecond,
    readRest_fractionText h.micro]
  rfl

/-- No sign stands before the distance to universal time. -/
theorem isSign_clockText (h : i.Universal) : ∀ c ∈ clockText i, isSign c = false := by
  obtain ⟨-, -, -, hhour, hminute, hsecond⟩ := h.fits
  have hdigit {c : CodePoint} (hc : Json.isDigit c = true) : isSign c = false := by
    unfold isSign
    simp [ne_of_isDigit hc (show Json.isDigit '+' = false by decide),
      ne_of_isDigit hc (show Json.isDigit hyphen = false by decide),
      ne_of_isDigit hc (show Json.isDigit universalSign = false by decide)]
  have htwo {n : Nat} (hn : n < 10 ^ 2) : ∀ c ∈ two n, isSign c = false := fun c hc =>
    hdigit ((Text.padded_digits (by decide : 0 < 2) hn).2.1 c hc)
  have hfraction : ∀ c ∈ fractionText i.micro, isSign c = false := by
    unfold fractionText
    split_ifs with hzero
    · exact List.forall_mem_nil _
    · refine List.forall_mem_cons.mpr ⟨by decide, fun c hc => ?_⟩
      exact hdigit ((Text.padded_digits (by decide : 0 < 6) h.micro).2.1 c hc)
  have hcolon : isSign ':' = false := by decide
  unfold clockText
  intro c hc
  simp only [List.mem_append, List.mem_cons] at hc
  rcases hc with hc | rfl | hc | rfl | hc | hc
  · exact htwo hhour c hc
  · exact hcolon
  · exact htwo hminute c hc
  · exact hcolon
  · exact htwo hsecond c hc
  · exact hfraction c hc

theorem readTime_clockText (h : i.Universal) : readTime (clockText i ++ ("+00:00" : Text)) =
    some (⟨i.hour, i.minute, i.second, i.micro⟩, some universal) := by
  have hsign : ∀ c ∈ clockText i, (!isSign c) = true := by simpa using isSign_clockText h
  have hbody : (clockText i ++ ("+00:00" : Text)).takeWhile (fun c => !isSign c) = clockText i := by
    rw [List.takeWhile_append_of_pos hsign]
    exact List.append_nil _
  have hzone : (clockText i ++ ("+00:00" : Text)).dropWhile (fun c => !isSign c) =
      ('+' : CodePoint) :: ("00:00" : Text) := by
    rw [List.dropWhile_append_of_pos hsign]
    rfl
  have hoffset : readOffset '+' "00:00" = some universal := by decide
  unfold readTime
  dsimp only
  rw [hbody, hzone]
  simp only [Option.bind_eq_bind, readClock_clockText h, hoffset, Option.bind_some]

/-! ### The whole -/

theorem text_eq (h : i.Universal) : i.text =
    dateText i ++ ('T' : CodePoint) :: (clockText i ++ ("+00:00" : Text)) := by
  have hoffset : offsetText universal = "+00:00" := by decide
  unfold text
  rw [h.offset, Option.map_some, Option.getD_some, hoffset]
  have hhyphen : ("-" : Text) = [hyphen] := rfl
  have hcolon : (":" : Text) = [(':' : CodePoint)] := rfl
  have hmark : ("T" : Text) = [('T' : CodePoint)] := rfl
  rw [hhyphen, hcolon, hmark]
  simp only [Text.concat, dateText, clockText, List.flatten_cons, List.flatten_nil, List.append_nil,
    List.append_assoc, List.cons_append, List.nil_append]

/-- An instant of universal time is read as it was written. -/
theorem read_text (h : i.Universal) : read i.text = .ok i := by
  have hlength := dateText_length h
  have hread : read? i.text = some i := by
    unfold read?
    rw [text_eq h, dateLength_dateText h]
    dsimp only
    rw [List.take_left' hlength, List.drop_left' hlength, readDate_dateText h]
    simp only [Option.bind_eq_bind, Option.bind_some]
    rw [readTime_clockText h]
    simp only [Option.bind_some, ← h.offset]
  unfold read
  rw [hread]
  simp only [h.possible]

end Instant

end TitleClasses
