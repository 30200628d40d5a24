import Mathlib.Data.List.TakeWhile
import Mathlib.Tactic.SplitIfs
import TitleClasses.Proofs.Json.Read

/-!
# The texts of values

The text that stands for a value is unpaired if the value is well formed: a text stands for itself, and
the text of any other value has no surrogates at all. Literals and numerals have none since they are
made of characters (`encodable_ofString`), and quoting writes every surrogate by an escape
(`encodable_quoted`).
-/

namespace TitleClasses

/-! ### Texts without surrogates -/

namespace Utf8

theorem isSurrogate_ofChar (c : Char) : (CodePoint.ofChar c).isSurrogate = false := by
  rw [isSurrogate_eq_false_iff]
  have h := c.valid
  simp only [UInt32.isValidChar, Nat.isValidChar] at h
  have hval : (CodePoint.ofChar c).val = c.val.toNat := rfl
  omega

theorem encodable_ofChars (cs : List Char) : Utf8.Encodable (cs.map CodePoint.ofChar) := by
  rintro c hc
  obtain ⟨d, -, rfl⟩ := List.mem_map.mp hc
  exact isSurrogate_ofChar d

theorem encodable_ofString (s : String) : Utf8.Encodable (s : Text) := encodable_ofChars s.toList

theorem encodable_append {t u : Text} (ht : Utf8.Encodable t) (hu : Utf8.Encodable u) :
    Utf8.Encodable (t ++ u) :=
  List.forall_mem_append.mpr ⟨ht, hu⟩

theorem encodable_flatten {ts : List Text} (h : ∀ t ∈ ts, Utf8.Encodable t) :
    Utf8.Encodable ts.flatten := by
  intro c hc
  obtain ⟨t, ht, hct⟩ := List.mem_flatten.mp hc
  exact h t ht c hct

theorem encodable_replicate (n : Nat) {c : CodePoint} (h : c.isSurrogate = false) :
    Utf8.Encodable (List.replicate n c) := by
  intro d hd
  rwa [List.eq_of_mem_replicate hd]

theorem encodable_join {separator : Text} {ts : List Text} (hs : Utf8.Encodable separator)
    (h : ∀ t ∈ ts, Utf8.Encodable t) : Utf8.Encodable (Text.join separator ts) := by
  unfold Text.join
  induction ts with
  | nil => simp [Utf8.Encodable]
  | cons t ts ih =>
    obtain ⟨ht, hts⟩ := List.forall_mem_cons.mp h
    by_cases hnil : ts = []
    · subst hnil
      simpa using ht
    · rw [List.intercalate_cons_of_ne_nil hnil]
      exact encodable_append (encodable_append ht hs) (ih hts)

end Utf8

namespace Text

open Utf8

/-- A text without surrogates is unpaired. -/
theorem unpaired_of_encodable {t : Text} (h : Utf8.Encodable t) : t.Unpaired := by
  induction t with
  | nil => exact .nil
  | cons c t ih =>
    obtain ⟨hc, ht⟩ := encodable_cons.mp h
    refine List.isChain_cons.mpr ⟨fun d _ hhigh => ?_, ih ht⟩
    rw [isSurrogate_eq_false_iff] at hc
    simp only [CodePoint.isHigh, Bool.and_eq_true, decide_eq_true_eq] at hhigh
    omega

theorem encodable_ofNat (n : Nat) : Utf8.Encodable (ofNat n) := encodable_ofChars _

theorem encodable_ofInt (n : Int) : Utf8.Encodable (ofInt n) := by
  cases n with
  | ofNat n => exact encodable_ofNat n
  | negSucc n => exact encodable_cons.mpr ⟨isSurrogate_ofChar '-', encodable_ofNat (n + 1)⟩

theorem encodable_padded (base width n : Nat) : Utf8.Encodable (padded base width n) :=
  encodable_append (encodable_replicate _ (isSurrogate_ofChar '0')) (encodable_ofChars _)

/-! ### Quoting -/

/-- Ranges that end before a number are passed over. -/
theorem inRanges_append {n : Nat} {pre : List (Nat × Nat)} (h : ∀ r ∈ pre, r.1 ≤ n ∧ r.2 < n)
    (post : List (Nat × Nat)) : inRanges (pre ++ post) n = inRanges post n := by
  induction pre with
  | nil => rfl
  | cons r pre ih =>
    obtain ⟨⟨hlow, hhigh⟩, hpre⟩ := List.forall_mem_cons.mp h
    rw [List.cons_append, inRanges, if_neg (by omega), if_neg (by omega), ih hpre]

/-- Surrogates are written by escapes. -/
theorem isSurrogate_of_isPrintable {c : CodePoint} (h : c.isPrintable = true) :
    c.isSurrogate = false := by
  rw [← Bool.not_eq_true]
  intro hc
  simp only [CodePoint.isSurrogate, Bool.and_eq_true, decide_eq_true_eq] at hc
  -- The table has one range around all surrogates.
  let before : Nat × Nat → Bool := fun r => r.1 ≤ 0xd7fc && r.2 < 0xd7fc
  have hhead : (unprintableRanges.dropWhile before).head? = some (0xd7fc, 0xf8ff) := by
    decide +kernel
  obtain ⟨post, hpost⟩ := List.head?_eq_some_iff.mp hhead
  have hpre : ∀ r ∈ unprintableRanges.takeWhile before, r.1 ≤ c.val ∧ r.2 < c.val := by
    intro r hr
    have hb := List.mem_takeWhile_imp hr
    simp only [before, Bool.and_eq_true, decide_eq_true_eq] at hb
    omega
  have hin : inRanges unprintableRanges c.val = true := by
    rw [← List.takeWhile_append_dropWhile (p := before) (l := unprintableRanges),
      inRanges_append hpre, hpost, inRanges, if_neg (by omega), if_pos (by omega)]
  rw [CodePoint.isPrintable, hin] at h
  cases h

theorem encodable_quoteOne {mark : CodePoint} (hm : mark.isSurrogate = false) (c : CodePoint) :
    Utf8.Encodable (quoteOne mark c) := by
  unfold quoteOne
  split_ifs with h1 h2 h3 h4 h5
  · -- A mark or a backslash, with a backslash before it.
    have hc : c.isSurrogate = false := by
      simp only [Bool.or_eq_true, decide_eq_true_eq] at h1
      rcases h1 with rfl | rfl
      · exact hm
      · exact isSurrogate_ofChar _
    exact encodable_cons.mpr ⟨isSurrogate_ofChar _, encodable_cons.mpr ⟨hc, by simp [Utf8.Encodable]⟩⟩
  · exact encodable_ofString _
  · exact encodable_ofString _
  · exact encodable_ofString _
  · exact encodable_cons.mpr ⟨isSurrogate_of_isPrintable h5, by simp [Utf8.Encodable]⟩
  · exact encodable_append (encodable_ofString _) (encodable_padded _ _ _)
  · exact encodable_append (encodable_ofString _) (encodable_padded _ _ _)
  · exact encodable_append (encodable_ofString _) (encodable_padded _ _ _)

/-- A quoted text has no surrogates. -/
theorem encodable_quoted (t : Text) : Utf8.Encodable t.quoted := by
  have hmark : (quoteMark t).isSurrogate = false := by
    unfold quoteMark
    split_ifs
    · exact isSurrogate_ofChar _
    · exact isSurrogate_ofChar _
  have hinner : Utf8.Encodable (t.flatMap (quoteOne (quoteMark t))) := by
    intro c hc
    obtain ⟨d, -, hcd⟩ := List.mem_flatMap.mp hc
    exact encodable_quoteOne hmark d c hcd
  have hend : Utf8.Encodable [quoteMark t] := encodable_cons.mpr ⟨hmark, by simp [Utf8.Encodable]⟩
  exact encodable_cons.mpr ⟨hmark, encodable_append hinner hend⟩

theorem encodable_bracketed {ts : List Text} (h : ∀ t ∈ ts, Utf8.Encodable t) :
    Utf8.Encodable (bracketed ts) :=
  encodable_append (encodable_append (encodable_ofString _)
    (encodable_join (encodable_ofString _) h)) (encodable_ofString _)

end Text

/-! ### Numbers -/

namespace Binary64

open Utf8

theorem encodable_significant (d : Decimal) : Utf8.Encodable (significant d).1 := by
  intro c hc
  have hmem := (List.dropWhile_suffix _).subset (List.mem_reverse.mp hc)
  exact Text.encodable_ofNat _ c (List.mem_reverse.mp hmem)

theorem encodable_write (l : Layout) {digits : Text} (h : Utf8.Encodable digits) (point : Int) :
    Utf8.Encodable (l.write digits point) := by
  have hzero (n : Nat) : Utf8.Encodable (List.replicate n ('0' : CodePoint)) :=
    encodable_replicate n (isSurrogate_ofChar _)
  have htake (n : Nat) : Utf8.Encodable (digits.take n) := fun c hc => h c (List.mem_of_mem_take hc)
  have hdrop (n : Nat) : Utf8.Encodable (digits.drop n) := fun c hc => h c (List.mem_of_mem_drop hc)
  have hmark : Utf8.Encodable (if point - 1 < 0 then "e-" else "e+" : Text) := by
    split_ifs <;> exact encodable_ofString _
  have hfraction : Utf8.Encodable (if 1 < digits.length then "." ++ digits.drop 1
      else if l.fraction then ".0" else [] : Text) := by
    split_ifs
    · exact encodable_append (encodable_ofString _) (hdrop _)
    · exact encodable_ofString _
    · simp [Utf8.Encodable]
  unfold Layout.write
  by_cases hplain : (-4 < point && point ≤ l.places) = true
  · rw [if_pos hplain]
    dsimp only
    split_ifs
    · exact encodable_append (encodable_append (encodable_ofString _) (hzero _)) h
    · exact encodable_append (encodable_append h (hzero _)) (encodable_ofString _)
    · exact encodable_append (encodable_append (htake _) (encodable_ofString _)) (hdrop _)
  · rw [if_neg hplain]
    exact encodable_append (encodable_append (encodable_append (htake _) hfraction) hmark)
      (Text.encodable_padded _ _ _)

theorem encodable_text (x : Binary64) : Utf8.Encodable x.text := by
  have hsign (negative : Bool) : Utf8.Encodable (signMark negative) := by
    cases negative <;> exact encodable_ofString _
  unfold text
  cases x with
  | nan => exact encodable_ofString _
  | infinite negative => exact encodable_append (hsign negative) (encodable_ofString _)
  | finite negative mantissa exponent =>
    refine encodable_append (hsign negative) ?_
    split_ifs
    · exact encodable_ofString _
    · exact encodable_write _ (encodable_significant _) _

end Binary64

/-! ### Values -/

namespace Json

open Utf8

mutual

/-- The text of a value inside a list or an object has no surrogates. -/
theorem encodable_quoted : ∀ v : Json, Utf8.Encodable v.quoted
  | .null => encodable_ofString _
  | .bool b => by cases b <;> exact encodable_ofString _
  | .int n => Text.encodable_ofInt n
  | .float x => Binary64.encodable_text x
  | .text t => Text.encodable_quoted t
  | .list xs => Text.encodable_bracketed (encodable_quotedItems xs)
  | .object ms => encodable_append (encodable_append (encodable_ofString _)
      (encodable_join (encodable_ofString _) (encodable_quotedMembers ms))) (encodable_ofString _)

theorem encodable_quotedItems : ∀ xs : List Json, ∀ t ∈ quotedItems xs, Utf8.Encodable t
  | [] => by simp [quotedItems]
  | x :: xs => List.forall_mem_cons.mpr ⟨encodable_quoted x, encodable_quotedItems xs⟩

theorem encodable_quotedMembers : ∀ ms : List (Text × Json), ∀ t ∈ quotedMembers ms, Utf8.Encodable t
  | [] => by simp [quotedMembers]
  | (k, v) :: ms => by
    refine List.forall_mem_cons.mpr ⟨encodable_flatten ?_, encodable_quotedMembers ms⟩
    simp [Text.encodable_quoted k, encodable_ofString, encodable_quoted v]

end

/-- The text that stands for a well-formed value is unpaired. -/
theorem unpaired_display {v : Json} (h : v.WellFormed) : v.display.Unpaired := by
  cases v with
  | text t => exact wellFormed_text.mp h
  | _ => exact Text.unpaired_of_encodable (encodable_quoted _)

end Json

end TitleClasses
