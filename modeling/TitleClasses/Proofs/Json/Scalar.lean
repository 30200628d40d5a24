import Mathlib.Data.List.Chain
import Mathlib.Tactic.SplitIfs
import TitleClasses.Json.Printer
import TitleClasses.Json.Reader

/-!
# Written strings and integers are read back

A string is read character by character: `readEscape_unit` reads one sixteen-bit unit, and
`readString_writeOne` any character in its written form. In the written form that keeps only ASCII a
high surrogate before a low one would be read as the character that the pair stands for, so a text is
`Unpaired` where it is written in that form. `readQuoted_writeText` and `readNumeral_ofInt` are the
round trips.
-/

namespace TitleClasses

/-- The first half of a surrogate pair. -/
def CodePoint.isHigh (c : CodePoint) : Bool := 0xd800 ≤ c.val && c.val ≤ 0xdbff

/-- The second half of a surrogate pair. -/
def CodePoint.isLow (c : CodePoint) : Bool := 0xdc00 ≤ c.val && c.val ≤ 0xdfff

/-- A text in which no first half of a surrogate pair stands before a second one. -/
def Text.Unpaired (t : Text) : Prop := t.IsChain fun c d => c.isHigh = true → d.isLow = false

/-! ### Digits -/

namespace Text

/-- The digit of a number below the base. -/
def digit (n : Nat) : CodePoint := CodePoint.ofChar n.digitChar

theorem ofNat_of_lt {n : Nat} (h : n < 10) : ofNat n = [digit n] := by
  rw [ofNat, Nat.toDigits_of_lt_base h]
  rfl

/-- The last digit of a numeral of more than one. -/
theorem ofNat_of_ge {n : Nat} (h : 10 ≤ n) : ofNat n = ofNat (n / 10) ++ [digit (n % 10)] := by
  rw [ofNat, Nat.toDigits_of_base_le (by decide) h, List.map_append]
  rfl

/-- The last digit of a numeral that is filled up with zeros. -/
theorem padded_succ {base width n : Nat} (hb : 1 < base) (hw : 0 < width) :
    padded base (width + 1) n = padded base width (n / base) ++ [digit (n % base)] := by
  unfold padded
  by_cases h : n < base
  · obtain ⟨w, rfl⟩ : ∃ w, width = w + 1 := ⟨width - 1, by omega⟩
    rw [Nat.div_eq_of_lt h, Nat.mod_eq_of_lt h, Nat.toDigits_of_lt_base h, Nat.toDigits_zero]
    simp only [List.map_cons, List.map_nil, List.length_singleton, Nat.add_sub_cancel]
    rw [List.replicate_succ']
    rfl
  · rw [Nat.toDigits_of_base_le hb (Nat.le_of_not_lt h)]
    simp only [List.map_append, List.length_append, List.map_cons, List.map_nil, List.length_map,
      List.length_singleton, Nat.add_sub_add_right, List.append_assoc]
    rfl

theorem padded_one {base n : Nat} (h : n < base) : padded base 1 n = [digit n] := by
  unfold padded
  rw [Nat.toDigits_of_lt_base h]
  rfl

/-- A sixteen-bit number as four hexadecimal digits. -/
theorem padded_unit {n : Nat} (h : n < 0x10000) : padded 16 4 n =
    [digit (n / 16 / 16 / 16), digit (n / 16 / 16 % 16), digit (n / 16 % 16), digit (n % 16)] := by
  rw [padded_succ (by decide) (by decide), padded_succ (by decide) (by decide),
    padded_succ (by decide) (by decide), padded_one (by omega)]
  rfl

end Text

namespace Json

open Text (digit)

theorem hexValue?_digit {n : Nat} (h : n < 16) : hexValue? (digit n) = some n := by
  have hall : ∀ m < 16, hexValue? (digit m) = some m := by decide
  exact hall n h

theorem isDigit_digit {n : Nat} (h : n < 10) : isDigit (digit n) = true ∧ (digit n).val = 0x30 + n := by
  have hall : ∀ m < 10, isDigit (digit m) = true ∧ (digit m).val = 0x30 + m := by decide
  exact hall n h

/-! ### Escapes -/

/-- Four hexadecimal digits before something else are read as the number. -/
theorem hexUnit?_padded {n : Nat} (h : n < 0x10000) {c : CodePoint} (r : Text) :
    hexUnit? (Text.padded 16 4 n ++ c :: r) = some (n, c :: r) := by
  rw [Text.padded_unit h]
  show (do
    let w ← hexValue? (digit (n / 16 / 16 / 16))
    let x ← hexValue? (digit (n / 16 / 16 % 16))
    let y ← hexValue? (digit (n / 16 % 16))
    let z ← hexValue? (digit (n % 16))
    pure (((w * 16 + x) * 16 + y) * 16 + z, c :: r)) = _
  rw [hexValue?_digit (by omega), hexValue?_digit (by omega), hexValue?_digit (by omega),
    hexValue?_digit (by omega)]
  show some (((n / 16 / 16 / 16 * 16 + n / 16 / 16 % 16) * 16 + n / 16 % 16) * 16 + n % 16, c :: r) = _
  congr 2
  omega

/-- Whether a text goes on with an escape of the second half of a surrogate pair. -/
def GoesOnLow (t : Text) : Prop :=
  ∃ s low s', t = ('\\' : CodePoint) :: ('u' : CodePoint) :: s ∧ hexUnit? s = some (low, s') ∧
    0xdc00 ≤ low ∧ low ≤ 0xdfff

/-- An escaped unit is read as its code point, unless it is the first half of a surrogate pair and the
second half follows it. -/
theorem readEscape_unit {n : Nat} (hn : n < 0x10000) {c : CodePoint} {r : Text}
    (h : 0xd800 ≤ n → n ≤ 0xdbff → ¬ GoesOnLow (c :: r)) (start : Text) :
    readEscape start ('u' :: (Text.padded 16 4 n ++ c :: r)) = .ok (.ofNat n, c :: r) := by
  rw [readEscape, if_pos rfl, hexUnit?_padded hn]
  cases r with
  | nil => rfl
  | cons e s =>
    simp only
    split_ifs with hpair
    · simp only [Bool.and_eq_true, decide_eq_true_iff] at hpair
      obtain ⟨⟨⟨hlo, hhi⟩, rfl⟩, rfl⟩ := hpair
      cases hs : hexUnit? s with
      | none => rfl
      | some p =>
        obtain ⟨low, s'⟩ := p
        have hlow : ¬ (0xdc00 ≤ low ∧ low ≤ 0xdfff) := fun hl =>
          h hlo hhi ⟨s, low, s', rfl, hs, hl.1, hl.2⟩
        simp only [Bool.and_eq_true, decide_eq_true_iff, hlow, if_false]
    · rfl

/-- An escaped pair of surrogates is read as the character it stands for. -/
theorem readEscape_pair {c d : CodePoint} (hc : 0x10000 ≤ c.val) (r start : Text) :
    readEscape start ('u' :: (Text.padded 16 4 (0xd800 + (c.val - 0x10000) / 0x400) ++
      ('\\' : CodePoint) :: ('u' : CodePoint) ::
        (Text.padded 16 4 (0xdc00 + c.val % 0x400) ++ d :: r))) = .ok (c, d :: r) := by
  have hlt := c.isLt
  have hhigh : 0xd800 + (c.val - 0x10000) / 0x400 ≤ 0xdbff := by omega
  have hlow : 0xdc00 + c.val % 0x400 ≤ 0xdfff := by omega
  have hval : CodePoint.ofNat (0x10000 + (0xd800 + (c.val - 0x10000) / 0x400 - 0xd800) * 0x400 +
      (0xdc00 + c.val % 0x400 - 0xdc00)) = c := by
    apply Fin.ext
    show (_ : Nat) % 0x110000 = c.val
    omega
  rw [readEscape, if_pos rfl, hexUnit?_padded (by omega)]
  simp only [Nat.le_add_right, hhigh, decide_true, Bool.and_self, if_true]
  rw [hexUnit?_padded (by omega)]
  simp only [Nat.le_add_right, hlow, decide_true, Bool.and_self, if_true, hval]

/-! ### Strings -/

theorem unitEscape_append (n : Nat) (t : Text) :
    unitEscape n ++ t = ('\\' : CodePoint) :: ('u' : CodePoint) :: (Text.padded 16 4 n ++ t) := rfl

/-- A character in its written form, before something else, is read as the character. -/
theorem readString_writeOne {ascii : Bool} {c d : CodePoint} {r : Text}
    (h : ascii = true → c.isHigh = true → ¬ GoesOnLow (d :: r)) (start : Text) (tick : CodePoint)
    (clock done : Text) :
    readString start (tick :: clock) done (writeOne ascii c ++ d :: r) =
      readString start clock (c :: done) (d :: r) := by
  -- A backslash and what follows it are read as the character.
  have hescape (t : Text) (ht : readEscape start t = .ok (c, d :: r)) :
      readString start (tick :: clock) done (('\\' : CodePoint) :: t) =
        readString start clock (c :: done) (d :: r) := by
    rw [readString, if_neg (by decide), if_pos rfl, ht]
  unfold writeOne
  split_ifs with h1 h2 h3 h4 h5 h6 h7 h8 h9
  · -- Seven characters have escapes of one letter.
    exact hescape _ (by rw [h1]; rfl)
  · exact hescape _ (by rw [h2]; rfl)
  · exact hescape _ (by rw [h3]; rfl)
  · exact hescape _ (by rw [h4]; rfl)
  · exact hescape _ (by rw [h5]; rfl)
  · obtain rfl : c = 0xc := Fin.ext h6
    exact hescape _ rfl
  · obtain rfl : c = 0x8 := Fin.ext h7
    exact hescape _ rfl
  · -- Other control characters are written as units.
    rw [unitEscape_append]
    apply hescape
    rw [readEscape_unit (by omega) (fun hlo => by omega), CodePoint.ofNat]
    simp only [Nat.mod_eq_of_lt c.isLt]
  · -- In ASCII one unit or two stand for what is not printable.
    unfold codeEscape
    split_ifs with h10
    · rw [unitEscape_append]
      apply hescape
      have hnext : 0xd800 ≤ c.val → c.val ≤ 0xdbff → ¬ GoesOnLow (d :: r) := by
        intro hlo hhi
        simp only [Bool.and_eq_true] at h9
        exact h h9.1 (by simp [CodePoint.isHigh, hlo, hhi])
      rw [readEscape_unit h10 hnext, CodePoint.ofNat]
      simp only [Nat.mod_eq_of_lt c.isLt]
    · rw [List.append_assoc, unitEscape_append, unitEscape_append]
      apply hescape
      exact readEscape_pair (by omega) r start
  · show readString start (tick :: clock) done (c :: d :: r) = _
    rw [readString, if_neg h1, if_neg h2, if_neg h8]

/-- What is written for a character that is no second half of a surrogate pair is no escape of one. -/
theorem not_goesOnLow_writeOne {c : CodePoint} (h : c.isLow = false) (d : CodePoint) (r : Text) :
    ¬ GoesOnLow (writeOne true c ++ d :: r) := by
  rintro ⟨s, low, s', ht, hs, hlo, hhi⟩
  have hnot : ¬ (0xdc00 ≤ c.val ∧ c.val ≤ 0xdfff) := by
    simpa [CodePoint.isLow] using h
  -- An escape that is no unit goes on with another letter.
  have hletter (e : CodePoint) (he : e ≠ ('u' : Char)) (u : Text)
      (hu : writeOne true c = ('\\' : CodePoint) :: e :: u) : False := by
    rw [hu] at ht
    exact he (List.cons.inj (List.cons.inj ht).2).1
  -- A unit is read as its number.
  have hunit (n : Nat) (hn : n < 0x10000) (u : Text) (hw : writeOne true c = unitEscape n ++ u)
      (e : CodePoint) (v : Text) (hu : u ++ d :: r = e :: v) : n = low := by
    rw [hw, List.append_assoc, hu, unitEscape_append] at ht
    have hp := (List.cons.inj (List.cons.inj ht).2).2
    rw [← hp, hexUnit?_padded hn] at hs
    exact (Prod.mk.inj (Option.some.inj hs)).1
  -- What is written for the character, on one side only.
  have hcase : writeOne true c = writeOne true c := rfl
  conv at hcase => rhs; unfold writeOne
  split_ifs at hcase with h1 h2 h3 h4 h5 h6 h7 h8 h9
  · exact hletter _ (by decide) _ hcase
  · exact hletter _ (by decide) _ hcase
  · exact hletter _ (by decide) _ hcase
  · exact hletter _ (by decide) _ hcase
  · exact hletter _ (by decide) _ hcase
  · exact hletter _ (by decide) _ hcase
  · exact hletter _ (by decide) _ hcase
  · have := hunit c.val (by omega) [] (by rw [hcase, List.append_nil]) d r rfl
    omega
  · unfold codeEscape at hcase
    split_ifs at hcase with h10
    · have := hunit c.val h10 [] (by rw [hcase, List.append_nil]) d r rfl
      omega
    · have hlt := c.isLt
      have := hunit _ (by omega) _ hcase _ _ rfl
      omega
  · rw [hcase] at ht
    exact h2 (List.cons.inj ht).1

/-- The first half of a surrogate pair is not followed by an escape of a second half in what is written
of an unpaired text. -/
theorem not_goesOnLow_flatMap {c : CodePoint} {t : Text} (h : Text.Unpaired (c :: t))
    (hc : c.isHigh = true) (rest : Text) :
    ¬ GoesOnLow (t.flatMap (writeOne true) ++ ('"' : CodePoint) :: rest) := by
  cases t with
  | nil =>
    rintro ⟨s, low, s', hs, -⟩
    exact absurd (List.cons.inj hs).1 (by decide)
  | cons e t =>
    rw [Text.Unpaired, List.isChain_cons_cons] at h
    have he : e.isLow = false := h.1 hc
    obtain ⟨d, r, hr⟩ : ∃ d r, t.flatMap (writeOne true) ++ ('"' : CodePoint) :: rest = d :: r :=
      List.exists_cons_of_ne_nil (by simp)
    rw [List.flatMap_cons, List.append_assoc, hr]
    exact not_goesOnLow_writeOne he d r

/-- A text in its written form up to the closing quote is read as the text. -/
theorem readString_flatMap {ascii : Bool} {t : Text} (h : ascii = true → t.Unpaired)
    (start clock done rest : Text) (hclock : t.length < clock.length) :
    readString start clock done (t.flatMap (writeOne ascii) ++ ('"' : CodePoint) :: rest) =
      .ok (done.reverse ++ t, rest) := by
  -- One tick of the clock is spent on each character, and one on the closing quote.
  induction t generalizing clock done with
  | nil =>
    cases clock with
    | nil => cases hclock
    | cons tick clock =>
      show readString start (tick :: clock) done (('"' : CodePoint) :: rest) = _
      rw [readString, if_pos rfl, List.append_nil]
  | cons c t ih =>
    cases clock with
    | nil => cases hclock
    | cons tick clock =>
      have hclock' : t.length < clock.length := by simpa using hclock
      have ht : ascii = true → Text.Unpaired t := fun ha => (h ha).tail
      obtain ⟨d, r, hr⟩ : ∃ d r, t.flatMap (writeOne ascii) ++ ('"' : CodePoint) :: rest = d :: r :=
        List.exists_cons_of_ne_nil (by simp)
      have hnext : ascii = true → c.isHigh = true → ¬ GoesOnLow (d :: r) := by
        intro ha hc
        subst ha
        rw [← hr]
        exact not_goesOnLow_flatMap (h rfl) hc rest
      rw [List.flatMap_cons, List.append_assoc, hr, readString_writeOne hnext, ← hr, ih ht _ _ hclock']
      simp

/-- Every character takes at least one to write. -/
theorem length_le_flatMap_writeOne (ascii : Bool) (t : Text) :
    t.length ≤ (t.flatMap (writeOne ascii)).length := by
  have hone (c : CodePoint) : 1 ≤ (writeOne ascii c).length := by
    have hne : writeOne ascii c ≠ [] := by
      unfold writeOne codeEscape
      split_ifs <;> (intro h; cases h)
    exact List.length_pos_iff.mpr hne
  induction t with
  | nil => exact Nat.le_refl 0
  | cons c t ih =>
    rw [List.flatMap_cons, List.length_append, List.length_cons]
    have := hone c
    omega

/-- A written text is read back as the text. -/
theorem readQuoted_writeText {ascii : Bool} {t : Text} (h : ascii = true → t.Unpaired) (rest : Text) :
    readQuoted (writeText ascii t ++ rest) = .ok (t, rest) := by
  have hshape : writeText ascii t ++ rest =
      ('"' : CodePoint) :: (t.flatMap (writeOne ascii) ++ ('"' : CodePoint) :: rest) := by
    show (('"' : CodePoint) :: t.flatMap (writeOne ascii) ++ [('"' : CodePoint)]) ++ rest = _
    simp
  have hlen := length_le_flatMap_writeOne ascii t
  unfold readQuoted
  rw [hshape, List.drop_one, List.tail_cons, readString_flatMap h]
  · rfl
  · simp only [List.length_cons, List.length_append]
    omega

/-! ### Integers -/

/-- A numeral is made of digits, stands for its number, and begins with a zero only if that is all. -/
theorem ofNat_digits (n : Nat) :
    (∀ c ∈ Text.ofNat n, isDigit c = true) ∧ digitsValue (Text.ofNat n) = n ∧
      ∃ c r, Text.ofNat n = c :: r ∧ (c = ('0' : Char) → r = []) := by
  induction n using Nat.strongRecOn with
  | ind n ih =>
    by_cases h : n < 10
    · -- The number is its only digit.
      obtain ⟨hd, hv⟩ := isDigit_digit h
      rw [Text.ofNat_of_lt h]
      refine ⟨by simpa using hd, ?_, digit n, [], rfl, fun _ => rfl⟩
      simp only [digitsValue, List.foldl_cons, List.foldl_nil, hv]
      omega
    · have hge : 10 ≤ n := Nat.le_of_not_lt h
      obtain ⟨hall, hval, c, r, hcr, hzero⟩ := ih (n / 10) (by omega)
      obtain ⟨hd, hv⟩ := isDigit_digit (Nat.mod_lt n (by decide : 0 < 10))
      have hsplit := Text.ofNat_of_ge hge
      refine ⟨?_, ?_, c, r ++ [digit (n % 10)], by rw [hsplit, hcr]; rfl, ?_⟩
      · intro x hx
        rw [hsplit] at hx
        rcases List.mem_append.mp hx with hx | hx
        · exact hall x hx
        · rw [List.mem_singleton.mp hx]
          exact hd
      · rw [hsplit]
        unfold digitsValue at hval ⊢
        rw [List.foldl_append, hval]
        simp only [List.foldl_cons, List.foldl_nil, hv]
        omega
      · -- A zero alone in front would mean that there is nothing before the last digit.
        intro hc
        have hr := hzero hc
        rw [hcr, hr, hc] at hval
        have hzero : n / 10 = 0 := hval.symm
        omega

/-- What may follow a value: the end, a comma, a bracket, or a line end. -/
def Delimited (t : Text) : Prop :=
  ∀ c, t.head? = some c →
    c = (',' : Char) ∨ c = (']' : Char) ∨ c = ('\x7d' : Char) ∨ c = ('\n' : Char)

/-- A delimiter goes on no numeral. -/
theorem Delimited.not_numeral {c : CodePoint} {r : Text} (h : Delimited (c :: r)) :
    isDigit c = false ∧ c ≠ ('.' : Char) ∧ c ≠ ('e' : Char) ∧ c ≠ ('E' : Char) := by
  rcases h c rfl with rfl | rfl | rfl | rfl <;> decide

theorem takeWhile_digits {t rest : Text} (ht : ∀ c ∈ t, isDigit c = true) (hr : Delimited rest) :
    (t ++ rest).takeWhile isDigit = t ∧ (t ++ rest).dropWhile isDigit = rest := by
  have hrest : rest.takeWhile isDigit = [] ∧ rest.dropWhile isDigit = rest := by
    cases rest with
    | nil => exact ⟨rfl, rfl⟩
    | cons c r => simp [hr.not_numeral.1]
  rw [List.takeWhile_append_of_pos ht, List.dropWhile_append_of_pos ht, hrest.1, hrest.2,
    List.append_nil]
  exact ⟨rfl, rfl⟩

/-- What stands behind the digits of an integer has neither a fraction nor an exponent. -/
theorem readExponent_delimited {rest : Text} (h : Delimited rest) :
    readExponent rest = (none, rest) := by
  cases rest with
  | nil => rfl
  | cons c r =>
    obtain ⟨-, -, he, hE⟩ := h.not_numeral
    simp [readExponent, he, hE]

/-- The digits at the front of a text that goes on after a numeral. -/
theorem readDigits_ofNat (n : Nat) {rest : Text} (h : Delimited rest) :
    readDigits (Text.ofNat n ++ rest) = (Text.ofNat n, rest) := by
  obtain ⟨hall, -, c, r, hcr, hzero⟩ := ofNat_digits n
  obtain ⟨htake, hdrop⟩ := takeWhile_digits hall h
  rw [hcr] at htake hdrop ⊢
  rw [List.cons_append, readDigits]
  by_cases hc : c = ('0' : Char)
  · obtain rfl := hzero hc
    rw [if_pos hc]
    rfl
  · rw [if_neg hc, ← List.cons_append, htake, hdrop]

theorem readFraction_delimited {rest : Text} (h : Delimited rest) :
    readFraction rest = (none, rest) := by
  cases rest with
  | nil => rfl
  | cons p r =>
    cases r with
    | nil => rfl
    | cons d r => simp [readFraction, h.not_numeral.2.1]

theorem readUnsigned_ofNat (negative : Bool) (n : Nat) {rest : Text} (h : Delimited rest) :
    readUnsigned negative (Text.ofNat n ++ rest) =
      some (⟨negative, Text.ofNat n, none, none⟩, rest) := by
  obtain ⟨-, -, c, r, hcr, -⟩ := ofNat_digits n
  have hne : (Text.ofNat n).isEmpty = false := by
    rw [hcr]
    rfl
  unfold readUnsigned
  simp only [readDigits_ofNat n h, hne, Bool.false_eq_true, if_false, readFraction_delimited h,
    readExponent_delimited h]

/-- A written integer is read as its sign and its digits. -/
theorem readNumeral_ofInt (n : Int) {rest : Text} (h : Delimited rest) :
    readNumeral (Text.ofInt n ++ rest) =
      some (⟨decide (n < 0), Text.ofNat n.natAbs, none, none⟩, rest) := by
  cases n with
  | ofNat m =>
    obtain ⟨hall, -, c, r, hcr, -⟩ := ofNat_digits m
    have hsign : c ≠ ('-' : Char) := by
      rintro rfl
      have hdigit := hall _ (by rw [hcr]; exact List.mem_cons_self)
      exact absurd hdigit (by decide)
    have hread := readUnsigned_ofNat false m h
    show readNumeral (Text.ofNat m ++ rest) = _
    rw [hcr, List.cons_append] at hread ⊢
    rw [readNumeral, if_neg hsign, hread, ← hcr]
    simp
  | negSucc m =>
    show readNumeral (('-' : CodePoint) :: (Text.ofNat (m + 1) ++ rest)) = _
    rw [readNumeral, if_pos rfl, readUnsigned_ofNat true (m + 1) h]
    simp

/-- The value of a written integer that has not too many digits. -/
theorem value_ofInt {n : Int} (h : (Text.ofNat n.natAbs).length ≤ maxDigits) :
    (⟨decide (n < 0), Text.ofNat n.natAbs, none, none⟩ : Numeral).value = .ok (.int n) := by
  unfold Numeral.value
  simp only [Nat.not_lt.mpr h, if_false, (ofNat_digits n.natAbs).2.1]
  congr 2
  by_cases hn : n < 0
  · simp only [hn, decide_true, if_true]
    omega
  · simp only [hn, decide_false, Bool.false_eq_true, if_false]
    omega

end Json

end TitleClasses
