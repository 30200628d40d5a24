import Mathlib.Data.List.Forall2
import Mathlib.Tactic.SplitIfs
import TitleClasses.Proofs.Rule.Regex
import TitleClasses.Proofs.Rule.Term

/-!
# Where a term is found

The search for a pattern finds what a cut of the text shows: consecutive parts, one for each piece, with
no word character right before the first and none right after the last. `cut_iff` and `occursIn_iff`
turn the search into the existence of such a cut, by induction on the pieces and on the text.
`foundIn_ofPart_iff` is the statement for the term of a part of a rule, by positions in the text.
-/

namespace TitleClasses

/-- What a part of a text has to be for a piece of a pattern. -/
def Piece.Fits : Piece → Text → Prop
  | .literal c, part => ∃ d, part = [d] ∧ c.caseEq d = true
  | .blanks, part => part ≠ [] ∧ ∀ d ∈ part, d.isBlank = true
  | .wildcard, part => ∀ d ∈ part, d.isWord = true

/-- Where lists are related one by one, every entry of the first is related to one of the second. -/
theorem exists_of_mem_forall₂ {α β : Type} {R : α → β → Prop} {l : List α} {l' : List β}
    (h : List.Forall₂ R l l') {a : α} (ha : a ∈ l) : ∃ b ∈ l', R a b := by
  induction h with
  | nil => cases ha
  | @cons a' b _ _ hab _ ih =>
    rcases List.mem_cons.mp ha with rfl | ha
    · exact ⟨b, List.mem_cons_self, hab⟩
    · obtain ⟨b', hb', hab'⟩ := ih ha
      exact ⟨b', List.mem_cons_of_mem b hb', hab'⟩

namespace Pattern

/-! ### Runs -/

/-- `afterWord` holds exactly when the text is a run of word characters and something of which the
condition holds. -/
theorem afterWord_iff (k : Text → Bool) (t : Text) :
    afterWord k t = true ↔
      ∃ run rest, t = run ++ rest ∧ (∀ d ∈ run, d.isWord = true) ∧ k rest = true := by
  induction t with
  | nil =>
    constructor
    · intro h
      exact ⟨[], [], rfl, by simp, h⟩
    · rintro ⟨run, rest, ht, -, hk⟩
      obtain ⟨rfl, rfl⟩ := List.append_eq_nil_iff.mp ht.symm
      exact hk
  | cons c r ih =>
    rw [afterWord, Bool.or_eq_true, Bool.and_eq_true, ih]
    constructor
    · rintro (hk | ⟨hc, run, rest, rfl, hrun, hk⟩)
      · exact ⟨[], c :: r, rfl, by simp, hk⟩
      · exact ⟨c :: run, rest, rfl, by simpa [hc] using hrun, hk⟩
    · rintro ⟨run, rest, ht, hrun, hk⟩
      cases run with
      | nil =>
        rw [List.nil_append] at ht
        exact Or.inl (ht ▸ hk)
      | cons d run =>
        obtain ⟨rfl, rfl⟩ := List.cons.inj ht
        have hall := List.forall_mem_cons.mp hrun
        exact Or.inr ⟨hall.1, run, rest, rfl, hall.2, hk⟩

/-- `afterBlanks` holds exactly when the text is a run of blanks, which is not empty, and something of
which the condition holds. -/
theorem afterBlanks_iff (k : Text → Bool) (t : Text) :
    afterBlanks k t = true ↔
      ∃ run rest, t = run ++ rest ∧ (run ≠ [] ∧ ∀ d ∈ run, d.isBlank = true) ∧ k rest = true := by
  induction t with
  | nil =>
    constructor
    · intro h
      cases h
    · rintro ⟨run, rest, ht, ⟨hne, -⟩, -⟩
      exact absurd (List.append_eq_nil_iff.mp ht.symm).1 hne
  | cons c r ih =>
    rw [afterBlanks, Bool.and_eq_true, Bool.or_eq_true, ih]
    -- The run ends with this blank or goes on with at least one more.
    constructor
    · rintro ⟨hc, hk | ⟨run, rest, rfl, ⟨-, hrun⟩, hk⟩⟩
      · exact ⟨[c], r, rfl, ⟨by simp, by simpa using hc⟩, hk⟩
      · exact ⟨c :: run, rest, rfl, ⟨by simp, by simpa [hc] using hrun⟩, hk⟩
    · rintro ⟨run, rest, ht, ⟨hne, hrun⟩, hk⟩
      cases run with
      | nil => exact absurd rfl hne
      | cons d run =>
        obtain ⟨rfl, rfl⟩ := List.cons.inj ht
        have hall := List.forall_mem_cons.mp hrun
        refine ⟨hall.1, ?_⟩
        cases run with
        | nil => exact Or.inl hk
        | cons e run => exact Or.inr ⟨e :: run, rest, rfl, ⟨by simp, hall.2⟩, hk⟩

/-! ### Cuts -/

/-- The search from one place succeeds exactly when the text there can be cut into parts that fit the
pieces, with no word character behind them. -/
theorem cut_iff (ps : Pattern) (t : Text) :
    cut ps t = true ↔ ∃ parts rest, t = parts.flatten ++ rest ∧
      List.Forall₂ Piece.Fits ps parts ∧ wordEnds rest = true := by
  -- One piece more is one part more in front.
  have hcons (p : Piece) (ps : Pattern) (t : Text)
      (ih : ∀ t, cut ps t = true ↔ ∃ parts rest, t = parts.flatten ++ rest ∧
        List.Forall₂ Piece.Fits ps parts ∧ wordEnds rest = true) :
      (∃ part rest, t = part ++ rest ∧ p.Fits part ∧ cut ps rest = true) ↔
        ∃ parts rest, t = parts.flatten ++ rest ∧
          List.Forall₂ Piece.Fits (p :: ps) parts ∧ wordEnds rest = true := by
    constructor
    · rintro ⟨part, rest, rfl, hp, hcut⟩
      obtain ⟨parts, rest', rfl, hps, hw⟩ := (ih rest).mp hcut
      exact ⟨part :: parts, rest', by simp, .cons hp hps, hw⟩
    · rintro ⟨parts, rest, rfl, hps, hw⟩
      cases hps with
      | @cons _ part _ parts hp hps =>
        exact ⟨part, parts.flatten ++ rest, by simp, hp, (ih _).mpr ⟨parts, rest, rfl, hps, hw⟩⟩
  induction ps generalizing t with
  | nil =>
    rw [cut]
    constructor
    · intro h
      exact ⟨[], t, rfl, .nil, h⟩
    · rintro ⟨parts, rest, rfl, hps, hw⟩
      cases hps
      exact hw
  | cons p ps ih =>
    rw [← hcons p ps t ih]
    cases p with
    | literal c =>
      cases t with
      | nil =>
        constructor
        · intro h
          cases h
        · rintro ⟨part, rest, ht, ⟨d, rfl, -⟩, -⟩
          cases ht
      | cons d r =>
        rw [cut, Bool.and_eq_true]
        constructor
        · rintro ⟨hd, hcut⟩
          exact ⟨[d], r, rfl, ⟨d, rfl, hd⟩, hcut⟩
        · rintro ⟨part, rest, ht, ⟨e, rfl, he⟩, hcut⟩
          obtain ⟨rfl, rfl⟩ := List.cons.inj ht
          exact ⟨he, hcut⟩
    | blanks => exact afterBlanks_iff (cut ps) t
    | wildcard => exact afterWord_iff (cut ps) t

/-- The search from all places succeeds exactly when there is a place to begin, not right behind a word
character, from which it succeeds. -/
theorem occursFrom_iff (ps : Pattern) (inWord : Bool) (t : Text) :
    occursFrom ps inWord t = true ↔ ∃ front rest, t = front ++ rest ∧
      (front.getLast?.map CodePoint.isWord).getD inWord = false ∧ cut ps rest = true := by
  -- The induction is on the text; `inWord` is what was passed last, or what came before the text.
  induction t generalizing inWord with
  | nil =>
    rw [occursFrom, Bool.and_eq_true, Bool.not_eq_true']
    constructor
    · rintro ⟨hw, hcut⟩
      exact ⟨[], [], rfl, hw, hcut⟩
    · rintro ⟨front, rest, ht, hw, hcut⟩
      obtain ⟨rfl, rfl⟩ := List.append_eq_nil_iff.mp ht.symm
      exact ⟨hw, hcut⟩
  | cons c r ih =>
    have hlast (front : Text) : ((c :: front).getLast?.map CodePoint.isWord).getD inWord =
        (front.getLast?.map CodePoint.isWord).getD c.isWord := by
      cases front with
      | nil => rfl
      | cons d front => rw [List.getLast?_cons_cons, List.getLast?_cons]; rfl
    rw [occursFrom, Bool.or_eq_true, Bool.and_eq_true, Bool.not_eq_true', ih]
    constructor
    · rintro (⟨hw, hcut⟩ | ⟨front, rest, rfl, hw, hcut⟩)
      · exact ⟨[], c :: r, rfl, hw, hcut⟩
      · exact ⟨c :: front, rest, rfl, (hlast front).trans hw, hcut⟩
    · rintro ⟨front, rest, ht, hw, hcut⟩
      cases front with
      | nil =>
        rw [List.nil_append] at ht
        exact Or.inl ⟨hw, ht ▸ hcut⟩
      | cons d front =>
        obtain ⟨rfl, rfl⟩ := List.cons.inj ht
        exact Or.inr ⟨front, rest, rfl, (hlast front).symm.trans hw, hcut⟩

theorem wordEnds_iff (t : Text) :
    wordEnds t = true ↔ ∀ c, t.head? = some c → c.isWord = false := by
  cases t with
  | nil => simp [wordEnds]
  | cons c r => simp [wordEnds]

/-- A pattern is found in a text exactly when the text has consecutive parts that fit its pieces, with
no word character right before them and none right behind them. -/
theorem foundIn_iff (ps : Pattern) (t : Text) :
    foundIn ps t = true ↔ ∃ front parts rest, t = front ++ parts.flatten ++ rest ∧
      List.Forall₂ Piece.Fits ps parts ∧
      (∀ c, front.getLast? = some c → c.isWord = false) ∧
      (∀ c, rest.head? = some c → c.isWord = false) := by
  have hlast (front : Text) : (front.getLast?.map CodePoint.isWord).getD false = false ↔
      ∀ c, front.getLast? = some c → c.isWord = false := by
    cases front.getLast? <;> simp
  rw [foundIn_eq_occursIn, occursIn, occursFrom_iff]
  constructor
  · rintro ⟨front, rest, rfl, hw, hcut⟩
    obtain ⟨parts, rest', rfl, hps, hend⟩ := (cut_iff ps rest).mp hcut
    exact ⟨front, parts, rest', by simp, hps, (hlast front).mp hw, (wordEnds_iff rest').mp hend⟩
  · rintro ⟨front, parts, rest, rfl, hps, hw, hend⟩
    refine ⟨front, parts.flatten ++ rest, by simp, (hlast front).mpr hw, ?_⟩
    exact (cut_iff ps _).mpr ⟨parts, rest, rfl, hps, (wordEnds_iff rest).mpr hend⟩

end Pattern

namespace Term

open Pattern

/-- What a part of a text has to be for a character of a normal term: a run of word characters, which
may be empty, for the wildcard sign, one or more blanks for a space, and for any other character one
that is the same up to case. -/
def Fits (c : CodePoint) (part : Text) : Prop :=
  if c = wildcardSign then ∀ d ∈ part, d.isWord = true
  else if c = (' ' : Char) then part ≠ [] ∧ ∀ d ∈ part, d.isBlank = true
  else ∃ d, part = [d] ∧ c.caseEq d = true

/-- A character of a normal term asks for what its piece asks for. -/
theorem fits_pieceOf {c : CodePoint} (h : c.isBlank = true → c = (' ' : Char)) (part : Text) :
    (pieceOf c).Fits part ↔ Fits c part := by
  unfold pieceOf Fits
  by_cases hw : c = wildcardSign
  · rw [if_pos hw, if_pos hw]
    rfl
  · rw [if_neg hw, if_neg hw]
    cases hb : c.isBlank with
    | true =>
      rw [if_pos rfl, if_pos (h hb)]
      rfl
    | false =>
      have hs : c ≠ (' ' : Char) := by
        rintro rfl
        rw [CodePoint.isBlank_space] at hb
        cases hb
      rw [if_neg Bool.false_ne_true, if_neg hs]
      rfl

/-- In a spaced text every white space is the space. -/
theorem eq_space_of_spaced {t : Text} (ht : t.Spaced) {c : CodePoint} (hc : c ∈ t)
    (hb : c.isBlank = true) : c = (' ' : Char) := by
  induction t with
  | nil => cases hc
  | cons d r ih =>
    rcases List.mem_cons.mp hc with rfl | hc
    · exact (ht.1 hb).1
    · exact ih ht.2 hc

/-- Parts fit the pieces of a normal term exactly when they fit its characters. -/
theorem forall₂_fits_iff {t : Text} (ht : t.Spaced) (parts : List Text) :
    List.Forall₂ Piece.Fits (t.map pieceOf) parts ↔ List.Forall₂ Fits t parts := by
  rw [List.forall₂_map_left_iff]
  have hiff (c : CodePoint) (hc : c ∈ t) (part : Text) : (pieceOf c).Fits part ↔ Fits c part :=
    fits_pieceOf (fun hb => eq_space_of_spaced ht hc hb) part
  clear ht
  induction t generalizing parts with
  | nil => constructor <;> (intro h; cases h; exact .nil)
  | cons c r ih =>
    have hr := fun parts => ih parts fun d hd => hiff d (List.mem_cons_of_mem c hd)
    constructor
    · intro h
      cases h with
      | cons hc hs => exact .cons ((hiff c List.mem_cons_self _).mp hc) ((hr _).mp hs)
    · intro h
      cases h with
      | cons hc hs => exact .cons ((hiff c List.mem_cons_self _).mpr hc) ((hr _).mpr hs)

/-- A term with single spaces is found in a text exactly if one of its characters stands for itself and
the text has consecutive parts that fit its pieces, with no word character right before them and none
right behind them. -/
theorem foundIn_iff_of_spaced {t : Term} (h : t.text.Spaced) (s : Text) :
    t.foundIn s = true ↔ t.text.any isOwn = true ∧
      ∃ front parts rest, s = front ++ parts.flatten ++ rest ∧
        List.Forall₂ Piece.Fits (t.text.map pieceOf) parts ∧
        (∀ c, front.getLast? = some c → c.isWord = false) ∧
        (∀ c, rest.head? = some c → c.isWord = false) := by
  unfold foundIn
  rw [pattern_of_spaced h]
  by_cases hown : t.text.any isOwn = true
  · rw [if_pos hown, Option.any_some, foundIn_iff]
    simp only [hown, true_and]
  · rw [if_neg hown]
    simp [hown]

/-- What fits a character other than the wildcard sign is not empty. -/
theorem ne_nil_of_fits {c : CodePoint} (hwild : c ≠ wildcardSign) {part : Text}
    (h : (pieceOf c).Fits part) : part ≠ [] := by
  unfold pieceOf at h
  rw [if_neg hwild] at h
  split_ifs at h with hblank
  · exact h.1
  · obtain ⟨d, rfl, -⟩ := h
    exact List.cons_ne_nil _ _

/-- What fits a text with a character other than the wildcard sign is not empty. -/
theorem flatten_ne_nil_of_fits {g : Text} {c : CodePoint} (hc : c ∈ g) (hwild : c ≠ wildcardSign)
    {parts : List Text} (hparts : List.Forall₂ Piece.Fits (g.map pieceOf) parts) :
    parts.flatten ≠ [] := by
  obtain ⟨part, hpart, hfits⟩ := exists_of_mem_forall₂ hparts (List.mem_map_of_mem hc)
  intro hnil
  exact ne_nil_of_fits hwild hfits (List.flatten_eq_nil_iff.mp hnil part hpart)

/-- What stands in a part that fits a text stands in what fits one of its characters. -/
theorem exists_fits_of_mem_flatten {g : Text} {parts : List Text}
    (hparts : List.Forall₂ Piece.Fits (g.map pieceOf) parts) {d : CodePoint} (hd : d ∈ parts.flatten) :
    ∃ c ∈ g, ∃ part, d ∈ part ∧ (pieceOf c).Fits part := by
  obtain ⟨part, hpart, hdp⟩ := List.mem_flatten.mp hd
  obtain ⟨p, hp, hfits⟩ := exists_of_mem_forall₂ hparts.flip hpart
  obtain ⟨c, hc, rfl⟩ := List.mem_map.mp hp
  exact ⟨c, hc, part, hdp, hfits⟩

/-- A part of a text by positions is what stands between a front and a rest. -/
theorem exists_positions_iff (s : Text) (p : Text → Prop) :
    (∃ front middle rest, s = front ++ middle ++ rest ∧ p middle ∧
        (∀ c, front.getLast? = some c → c.isWord = false) ∧
        (∀ c, rest.head? = some c → c.isWord = false)) ↔
      ∃ i j, i ≤ j ∧ j ≤ s.length ∧ p ((s.drop i).take (j - i)) ∧
        (∀ k c, i = k + 1 → s[k]? = some c → c.isWord = false) ∧
        (∀ c, s[j]? = some c → c.isWord = false) := by
  constructor
  · rintro ⟨front, middle, rest, rfl, hp, hf, hr⟩
    refine ⟨front.length, front.length + middle.length, by omega, by simp, ?_, ?_, ?_⟩
    · -- Between the positions stands the middle.
      have hmid : ((front ++ middle ++ rest).drop front.length).take
          (front.length + middle.length - front.length) = middle := by
        rw [List.append_assoc, List.drop_left, Nat.add_sub_cancel_left, List.take_left]
      rw [hmid]
      exact hp
    · intro k c hk hc
      apply hf
      rw [List.append_assoc, List.getElem?_append_left (by omega)] at hc
      rw [List.getLast?_eq_getElem?, hk]
      exact hc
    · intro c hc
      apply hr
      rw [List.getElem?_append_right (by simp)] at hc
      simpa [List.head?_eq_getElem?] using hc
  · rintro ⟨i, j, hij, hj, hp, hf, hr⟩
    refine ⟨s.take i, (s.drop i).take (j - i), s.drop j, ?_, hp, ?_, ?_⟩
    · have hsplit := List.take_append_drop (j - i) (s.drop i)
      rw [List.drop_drop, Nat.add_sub_cancel' hij] at hsplit
      rw [List.append_assoc, hsplit, List.take_append_drop]
    · intro c hc
      cases i with
      | zero => simp at hc
      | succ k =>
        apply hf k c rfl
        rw [List.getLast?_eq_getElem?, List.length_take, Nat.min_eq_left (by omega)] at hc
        simpa using hc
    · intro c hc
      apply hr
      rw [← hc, List.head?_drop]

/-- The term of a part of a rule has the part's text without white space at the ends and with single
spaces inside, its written form is read back as its pattern, and it is found in a text exactly when the
part has a character that is neither the wildcard sign nor white space and the text has two positions
between which it can be cut into consecutive parts that fit the characters of the term, with no word
character right before them and none right behind them. -/
theorem foundIn_ofPart_iff (part s : Text) :
    (ofPart part).text = part.strip.collapse ∧
      (ofPart part).regex.bind Pattern.ofRegex = (ofPart part).pattern ∧
      ((ofPart part).foundIn s = true ↔
        (∃ c ∈ part, c ≠ wildcardSign ∧ c.isBlank = false) ∧
        ∃ i j, i ≤ j ∧ j ≤ s.length ∧
          (∃ parts : List Text, (s.drop i).take (j - i) = parts.flatten ∧
            List.Forall₂ Fits (ofPart part).text parts) ∧
          (∀ k c, i = k + 1 → s[k]? = some c → c.isWord = false) ∧
          (∀ c, s[j]? = some c → c.isWord = false)) := by
  refine ⟨text_ofPart part, ?_, ?_⟩
  · unfold regex
    cases (ofPart part).pattern with
    | none => rfl
    | some ps => exact ofRegex_regex ps
  · rw [← exists_positions_iff s fun middle => ∃ parts : List Text, middle = parts.flatten ∧
      List.Forall₂ Fits (ofPart part).text parts, ← satisfiable_ofPart_iff]
    unfold foundIn satisfiable
    rw [pattern_ofPart]
    -- A term without a character of its own has no pattern, and is not found.
    by_cases ha : part.any isOwn = true
    · rw [if_pos ha, Option.any_some, foundIn_iff]
      simp only [Option.isSome_some, true_and]
      constructor
      · rintro ⟨front, parts, rest, hs, hps, hf, hr⟩
        have hfits := (forall₂_fits_iff (text_ofPart_spaced part) parts).mp hps
        exact ⟨front, parts.flatten, rest, hs, ⟨parts, rfl, hfits⟩, hf, hr⟩
      · rintro ⟨front, middle, rest, hs, ⟨parts, rfl, hfits⟩, hf, hr⟩
        have hps := (forall₂_fits_iff (text_ofPart_spaced part) parts).mpr hfits
        exact ⟨front, parts, rest, hs, hps, hf, hr⟩
    · rw [if_neg ha]
      simp

end Term

end TitleClasses
