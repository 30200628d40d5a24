import Mathlib.Order.Fin.Basic
import Mathlib.Tactic.SplitIfs
import TitleClasses.Proofs.Json.RoundTrip
import TitleClasses.Proofs.Text.Utf8

/-!
# What reading yields

Whatever text without surrogates is read, the texts in the value are unpaired and the keys of its
objects are distinct: a first half of a surrogate pair can only come from an escape, and takes a second
half that follows it as one with it. `readEscape_cases` is the step for one escape, `readString_unpaired`
the run over a string. A round keeps what is read well formed if the rounds below it do
(`ValueRound.wellFormed` and its like for items and members), so that all rounds do (`readsWellFormed`);
`wellFormed_of_read` is the result for a whole text.
-/

namespace TitleClasses.Json

/-- Whether all texts in a value are unpaired and the keys of all objects in it distinct. -/
def WellFormed : Json → Prop
  | .text t => t.Unpaired
  | .list xs => ∀ x ∈ xs, x.WellFormed
  | .object ms => (ms.map Prod.fst).Nodup ∧ ∀ key v, (key, v) ∈ ms → key.Unpaired ∧ v.WellFormed
  | _ => True
decreasing_by
  · have hx := List.sizeOf_lt_of_mem ‹x ∈ xs›
    simp only [list.sizeOf_spec]
    omega
  · have hm := List.sizeOf_lt_of_mem ‹(key, v) ∈ ms›
    simp only [Prod.mk.sizeOf_spec] at hm
    simp only [object.sizeOf_spec]
    omega

@[simp] theorem wellFormed_text {t : Text} : (text t).WellFormed ↔ t.Unpaired := by rw [WellFormed]

@[simp] theorem wellFormed_list {xs : List Json} :
    (list xs).WellFormed ↔ ∀ x ∈ xs, x.WellFormed := by rw [WellFormed]

@[simp] theorem wellFormed_object {ms : Members} : (object ms).WellFormed ↔
    (ms.map Prod.fst).Nodup ∧ ∀ key v, (key, v) ∈ ms → key.Unpaired ∧ v.WellFormed := by
  rw [WellFormed]

/-! ### Strings -/

theorem hexValue?_lt {c : CodePoint} {n : Nat} (h : hexValue? c = some n) : n < 16 := by
  unfold hexValue? isDigit at h
  simp only [Bool.and_eq_true, decide_eq_true_eq] at h
  split_ifs at h <;> simp only [Option.some.injEq] at h <;> omega

theorem hexUnit?_ok {t r : Text} {n : Nat} (h : hexUnit? t = some (n, r)) :
    n < 0x10000 ∧ ∀ c ∈ r, c ∈ t := by
  unfold hexUnit? at h
  split at h
  next a b c d e s =>
    simp only [Option.bind_eq_bind, Option.bind_eq_some_iff, Option.pure_def, Option.some.injEq,
      Prod.mk.injEq] at h
    obtain ⟨w, hw, x, hx, y, hy, z, hz, rfl, rfl⟩ := h
    have hw' := hexValue?_lt hw
    have hx' := hexValue?_lt hx
    have hy' := hexValue?_lt hy
    have hz' := hexValue?_lt hz
    refine ⟨by omega, fun c hc => ?_⟩
    simp only [List.mem_cons] at hc ⊢
    tauto
  next => cases h

theorem simpleEscape?_lt {c d : CodePoint} (h : simpleEscape? c = some d) : d.val < 0x80 := by
  unfold simpleEscape? at h
  split_ifs at h with h1 h2 h3 h4 h5 h6 <;> simp only [Option.some.injEq] at h <;> subst h
  · simp only [Bool.or_eq_true, decide_eq_true_eq] at h1
    rcases h1 with (rfl | rfl) | rfl <;> decide
  all_goals decide

/-- What goes on with the second half of a surrogate pair has its escape at the front. -/
theorem goesOnLow_escape {s : Text} :
    GoesOnLow (('\\' : CodePoint) :: ('u' : CodePoint) :: s) ↔
      ∃ low r, hexUnit? s = some (low, r) ∧ 0xdc00 ≤ low ∧ low ≤ 0xdfff := by
  constructor
  · rintro ⟨s', low, r, heq, hs, hrange⟩
    obtain rfl : s = s' := (List.cons.inj (List.cons.inj heq).2).2
    exact ⟨low, r, hs, hrange⟩
  · rintro ⟨low, r, hs, hrange⟩
    exact ⟨s, low, r, rfl, hs, hrange⟩

/-- All that an escape can be read as: the character of a letter, the code point of a unit, or the code
point of a pair of units. A unit that is read alone is no first half of a pair whose second half
follows. -/
theorem readEscape_cases {start t r : Text} {c : CodePoint} (h : readEscape start t = .ok (c, r)) :
    (∃ e, t = e :: r ∧ simpleEscape? e = some c) ∨
    (∃ u n, t = ('u' : CodePoint) :: u ∧ hexUnit? u = some (n, r) ∧ c = .ofNat n ∧
      (0xd800 ≤ n → n ≤ 0xdbff → ¬ GoesOnLow r)) ∨
    ∃ u high s low, t = ('u' : CodePoint) :: u ∧
      hexUnit? u = some (high, ('\\' : CodePoint) :: ('u' : CodePoint) :: s) ∧
      hexUnit? s = some (low, r) ∧ high ≤ 0xdbff ∧ low ≤ 0xdfff ∧
      c = .ofNat (0x10000 + (high - 0xd800) * 0x400 + (low - 0xdc00)) := by
  unfold readEscape at h
  split at h
  · cases h
  next e u =>
  split_ifs at h with he
  · subst he
    right
    rcases hx : hexUnit? u with _ | ⟨n, u'⟩
    · simp [hx] at h
    simp only [hx] at h
    -- The unit alone is read, what follows being left.
    have halone (hnext : 0xd800 ≤ n → n ≤ 0xdbff → ¬ GoesOnLow u')
        (heq : (Except.ok (CodePoint.ofNat n, u') : Step CodePoint) = .ok (c, r)) :
        ∃ u₁ n₁, ('u' : CodePoint) :: u = ('u' : CodePoint) :: u₁ ∧ hexUnit? u₁ = some (n₁, r) ∧
          c = .ofNat n₁ ∧ (0xd800 ≤ n₁ → n₁ ≤ 0xdbff → ¬ GoesOnLow r) := by
      obtain ⟨rfl, rfl⟩ := Prod.mk.inj (Except.ok.inj heq)
      exact ⟨u, n, rfl, hx, rfl, hnext⟩
    split at h
    next d e s =>
      split_ifs at h with hpair
      · simp only [Bool.and_eq_true, decide_eq_true_eq] at hpair
        obtain ⟨⟨⟨-, hhigh⟩, rfl⟩, rfl⟩ := hpair
        rcases hs : hexUnit? s with _ | ⟨low, s'⟩
        · simp only [hs] at h
          refine Or.inl (halone (fun _ _ hgo => ?_) h)
          obtain ⟨low, s', hs', -⟩ := goesOnLow_escape.mp hgo
          cases hs.symm.trans hs'
        simp only [hs] at h
        split_ifs at h with hrange
        · simp only [Bool.and_eq_true, decide_eq_true_eq] at hrange
          obtain ⟨rfl, rfl⟩ := Prod.mk.inj (Except.ok.inj h)
          exact Or.inr ⟨u, n, s, low, rfl, hx, hs, hhigh, hrange.2, rfl⟩
        · refine Or.inl (halone (fun _ _ hgo => ?_) h)
          obtain ⟨low', s'', hs', hlow⟩ := goesOnLow_escape.mp hgo
          obtain ⟨rfl, rfl⟩ := Prod.mk.inj (Option.some.inj (hs.symm.trans hs'))
          exact hrange (by simp [hlow])
      · refine Or.inl (halone (fun hlo hhi => ?_) h)
        rintro ⟨s₁, low₁, s₁', heq, -⟩
        obtain ⟨rfl, hes⟩ := List.cons.inj heq
        obtain ⟨rfl, rfl⟩ := List.cons.inj hes
        exact hpair (by simp [hlo, hhi])
    next hshort =>
      refine Or.inl (halone (fun _ _ => ?_) h)
      rintro ⟨s₁, low₁, s₁', heq, -⟩
      exact hshort _ _ _ heq
  · rcases hd : simpleEscape? e with _ | d
    · simp [hd] at h
    simp only [hd] at h
    obtain ⟨rfl, rfl⟩ := Prod.mk.inj (Except.ok.inj h)
    exact Or.inl ⟨e, rfl, hd⟩

/-- Reading an escape uses up its text. -/
theorem mem_of_readEscape {start t r : Text} {c d : CodePoint} (h : readEscape start t = .ok (c, r))
    (hd : d ∈ r) : d ∈ t := by
  rcases readEscape_cases h with ⟨e, rfl, -⟩ | ⟨u, n, rfl, hu, -⟩ | ⟨u, high, s, low, rfl, hu, hs, -⟩
  · exact List.mem_cons_of_mem _ hd
  · exact List.mem_cons_of_mem _ ((hexUnit?_ok hu).2 d hd)
  · have hin : d ∈ ('\\' : CodePoint) :: ('u' : CodePoint) :: s :=
      List.mem_cons_of_mem _ (List.mem_cons_of_mem _ ((hexUnit?_ok hs).2 d hd))
    exact List.mem_cons_of_mem _ ((hexUnit?_ok hu).2 d hin)

/-- What is read for an escape. A first half of a surrogate pair is not followed by an escape of a
second half, which would have been read with it. -/
theorem readEscape_ok {start t r : Text} {c : CodePoint} (h : readEscape start t = .ok (c, r)) :
    (c.isHigh = true → ¬ GoesOnLow r) ∧ (c.isLow = true → GoesOnLow (('\\' : CodePoint) :: t)) := by
  simp only [CodePoint.isHigh, CodePoint.isLow, Bool.and_eq_true, decide_eq_true_eq]
  rcases readEscape_cases h with ⟨e, rfl, he⟩ | ⟨u, n, rfl, hu, rfl, hnext⟩ |
    ⟨u, high, s, low, rfl, hu, hs, hhigh, hlow, rfl⟩
  · have hval := simpleEscape?_lt he
    exact ⟨by omega, by omega⟩
  · -- A unit alone is a surrogate only if its number is that of one.
    have hn := (hexUnit?_ok hu).1
    have hval : (CodePoint.ofNat n).val = n := Nat.mod_eq_of_lt (by omega)
    rw [hval]
    refine ⟨fun hc => hnext hc.1 hc.2, fun hc => ?_⟩
    exact goesOnLow_escape.mpr ⟨n, r, hu, hc⟩
  · -- A pair is one character, and that is above all surrogates.
    have hval : (CodePoint.ofNat (0x10000 + (high - 0xd800) * 0x400 + (low - 0xdc00))).val =
        0x10000 + (high - 0xd800) * 0x400 + (low - 0xdc00) := Nat.mod_eq_of_lt (by omega)
    rw [hval]
    exact ⟨by omega, by omega⟩

/-- A string is read without a pair of surrogates in it. -/
theorem readString_unpaired {start clock done t s r : Text} (ht : Utf8.Encodable t)
    (hdone : done.IsChain fun d c => c.isHigh = true → d.isLow = false)
    (hnext : ∀ c ∈ done.head?, c.isHigh = true → ¬ GoesOnLow t)
    (h : readString start clock done t = .ok (s, r)) : s.Unpaired ∧ Utf8.Encodable r := by
  induction clock generalizing done t with
  | nil => cases h
  | cons tick clock ih =>
    cases t with
    | nil => cases h
    | cons c t =>
      obtain ⟨hc, ht'⟩ := Utf8.encodable_cons.mp ht
      rw [readString] at h
      split_ifs at h with hq hb hctl
      · -- The closing quote.
        obtain ⟨rfl, rfl⟩ := Prod.mk.inj (Except.ok.inj h)
        exact ⟨List.isChain_reverse.mpr hdone, ht'⟩
      · -- An escape: a second half would have been read with the first half before it.
        rcases he : readEscape start t with stop | ⟨d, r'⟩
        · simp [he] at h
        rw [he] at h
        obtain ⟨hhigh, hlow⟩ := readEscape_ok he
        refine ih (fun e hm => ht' e (mem_of_readEscape he hm)) ?_ ?_ h
        · refine List.isChain_cons.mpr ⟨fun e hm hhi => ?_, hdone⟩
          rw [← Bool.not_eq_true]
          intro hlo
          rw [hb] at hnext
          exact hnext e hm hhi (hlow hlo)
        · rintro e hm
          obtain rfl : d = e := Option.some.inj hm
          exact hhigh
      · -- A code point that stands for itself is no half of a pair.
        have hhalf : c.isHigh = false ∧ c.isLow = false := by
          rw [Utf8.isSurrogate_eq_false_iff] at hc
          simp only [CodePoint.isHigh, CodePoint.isLow, Bool.and_eq_false_iff, decide_eq_false_iff_not]
          omega
        refine ih ht' (List.isChain_cons.mpr ⟨fun e hm hhi => hhalf.2, hdone⟩) ?_ h
        rintro e hm hhi
        obtain rfl : c = e := Option.some.inj hm
        rw [hhalf.1] at hhi
        cases hhi

theorem readQuoted_wellFormed {t s r : Text} (ht : Utf8.Encodable t) (h : readQuoted t = .ok (s, r)) :
    s.Unpaired ∧ Utf8.Encodable r := by
  unfold readQuoted at h
  refine readString_unpaired (fun c hc => ht c (List.mem_of_mem_drop hc)) .nil ?_ h
  rintro c hc
  cases hc

/-! ### Words and numerals -/

theorem readDigits_suffix (t : Text) : (readDigits t).2 <:+ t := by
  unfold readDigits
  split
  · exact List.suffix_rfl
  · split_ifs
    · exact List.suffix_cons ..
    · exact List.dropWhile_suffix _

theorem readFraction_suffix (t : Text) : (readFraction t).2 <:+ t := by
  unfold readFraction
  split
  · split_ifs
    · exact (List.dropWhile_suffix _).trans (List.suffix_cons ..)
    · exact List.suffix_rfl
  · exact List.suffix_rfl

/-- The sign of an exponent is in the text, if there is one. -/
theorem exponentSign_suffix (r : Text) :
    (match r with
      | s :: r' => if s = ('-' : CodePoint) then (true, r') else
          if s = ('+' : CodePoint) then (false, r') else (false, r)
      | [] => (false, r) : Bool × Text).2 <:+ r := by
  cases r with
  | nil => exact List.suffix_rfl
  | cons s r' =>
    dsimp only
    split_ifs
    · exact List.suffix_cons ..
    · exact List.suffix_cons ..
    · exact List.suffix_rfl

theorem readExponent_suffix (t : Text) : (readExponent t).2 <:+ t := by
  unfold readExponent
  split
  · exact List.suffix_rfl
  next c r =>
    dsimp only
    split_ifs
    · exact List.suffix_rfl
    · exact ((List.dropWhile_suffix _).trans (exponentSign_suffix r)).trans (List.suffix_cons ..)
    · exact List.suffix_rfl

theorem readUnsigned_suffix {negative : Bool} {t r : Text} {n : Numeral}
    (h : readUnsigned negative t = some (n, r)) : r <:+ t := by
  unfold readUnsigned at h
  dsimp only at h
  split_ifs at h
  obtain ⟨-, rfl⟩ := Prod.mk.inj (Option.some.inj h)
  exact ((readExponent_suffix _).trans (readFraction_suffix _)).trans (readDigits_suffix t)

theorem readNumeral_suffix {t r : Text} {n : Numeral} (h : readNumeral t = some (n, r)) : r <:+ t := by
  unfold readNumeral at h
  split at h
  · cases h
  · split_ifs at h
    · exact (readUnsigned_suffix h).trans (List.suffix_cons ..)
    · exact readUnsigned_suffix h

/-- Whether a value is neither a text nor holds other values. -/
def IsScalar : Json → Prop
  | .null | .bool _ | .int _ | .float _ => True
  | .text _ | .list _ | .object _ => False

theorem IsScalar.wellFormed : ∀ {v : Json}, v.IsScalar → v.WellFormed
  | .null, _ | .bool _, _ | .int _, _ | .float _, _ => by simp [WellFormed]
  | .text _, h | .list _, h | .object _, h => h.elim

theorem IsScalar.nesting_eq : ∀ {v : Json}, v.IsScalar → v.nesting = 0
  | .null, _ | .bool _, _ | .int _, _ | .float _, _ => rfl
  | .text _, h | .list _, h | .object _, h => h.elim

theorem isScalar_of_value {n : Numeral} {v : Json} (h : n.value = .ok v) : v.IsScalar := by
  unfold Numeral.value at h
  split at h
  · split_ifs at h
    · obtain rfl := Except.ok.inj h
      trivial
    · obtain rfl := Except.ok.inj h
      trivial
  · obtain rfl := Except.ok.inj h
    trivial

/-- Words and numerals are read as what holds no texts. -/
theorem readScalar_ok {t r : Text} {v : Json} (h : readScalar t = .ok (v, r)) :
    v.IsScalar ∧ r <:+ t := by
  unfold readScalar at h
  split at h
  next word v' hfind =>
    -- A word stands for one of a few values.
    obtain ⟨rfl, rfl⟩ := Prod.mk.inj (Except.ok.inj h)
    have hall : ∀ w ∈ wordValues, w.2.IsScalar := by simp [wordValues, IsScalar]
    exact ⟨hall _ (List.mem_of_find?_eq_some hfind), List.drop_suffix _ t⟩
  next =>
    split at h
    · cases h
    next n r' hn =>
      split at h
      · cases h
      next v' hv =>
        obtain ⟨rfl, rfl⟩ := Prod.mk.inj (Except.ok.inj h)
        exact ⟨isScalar_of_value hv, readNumeral_suffix hn⟩

/-! ### Values -/

theorem encodable_skipSpace {t : Text} (h : Utf8.Encodable t) : Utf8.Encodable (skipSpace t) :=
  fun c hc => h c ((List.dropWhile_suffix _).subset hc)

theorem encodable_of_skipSpace_eq {t r : Text} {c : CodePoint} (h : Utf8.Encodable t)
    (hskip : skipSpace t = c :: r) : Utf8.Encodable r :=
  (Utf8.encodable_cons.mp (hskip ▸ encodable_skipSpace h)).2

/-- Of the keys at most the new one is added, and only where it was not there. -/
theorem keys_set (ms : Members) (key : Text) (v : Json) : (ms.set key v).map Prod.fst =
    if key ∈ ms.map Prod.fst then ms.map Prod.fst else ms.map Prod.fst ++ [key] := by
  induction ms with
  | nil => rfl
  | cons m ms ih =>
    rw [Members.set]
    by_cases hm : m.1 = key
    · simp [hm]
    · simp only [hm, if_false, List.map_cons, ih, List.mem_cons, Ne.symm hm, false_or]
      split_ifs <;> rfl

/-- The key has the value that it is given, and any other key what it had. -/
theorem get?_set (ms : Members) (key : Text) (v : Json) (other : Text) :
    (ms.set key v).get? other = if other = key then some v else ms.get? other := by
  have hcons (k : Text) (w : Json) (rest : Members) : Members.get? ((k, w) :: rest) other =
      if other = k then some w else rest.get? other := by
    unfold Members.get?
    rw [List.lookup_cons]
    by_cases h : other = k
    · simp [h]
    · rw [if_neg h, beq_eq_false_iff_ne.mpr h]
  induction ms with
  | nil => exact hcons key v []
  | cons m ms ih =>
    obtain ⟨k, w⟩ := m
    rw [Members.set]
    by_cases hk : k = key
    · rw [if_pos hk, hcons, hcons, hk]
      split_ifs <;> rfl
    · rw [if_neg hk, hcons, hcons, ih]
      by_cases h : other = k
      · rw [if_pos h, if_pos h, if_neg fun heq => hk (h.symm.trans heq)]
      · rw [if_neg h, if_neg h]

theorem mem_set {ms : Members} {key : Text} {v : Json} {m : Text × Json} (h : m ∈ ms.set key v) :
    m ∈ ms ∨ m = (key, v) := by
  induction ms with
  | nil => exact Or.inr (List.mem_singleton.mp h)
  | cons n ms ih =>
    rw [Members.set] at h
    split_ifs at h with hk
    · rcases List.mem_cons.mp h with rfl | h
      · exact Or.inr (by rw [hk])
      · exact Or.inl (List.mem_cons_of_mem _ h)
    · rcases List.mem_cons.mp h with rfl | h
      · exact Or.inl List.mem_cons_self
      · exact (ih h).imp_left (List.mem_cons_of_mem _)

/-- An object stays well formed when a key in it is given a well-formed value. -/
theorem wellFormed_set {ms : Members} {key : Text} {v : Json} (hms : (object ms).WellFormed)
    (hk : key.Unpaired) (hv : v.WellFormed) : (object (ms.set key v)).WellFormed := by
  obtain ⟨hnodup, hmembers⟩ := wellFormed_object.mp hms
  refine wellFormed_object.mpr ⟨?_, fun k w hkw => ?_⟩
  · rw [keys_set]
    split_ifs with hin
    · exact hnodup
    · rw [List.nodup_append]
      refine ⟨hnodup, by simp, fun a ha b hb heq => ?_⟩
      rw [List.mem_singleton.mp hb] at heq
      exact hin (heq ▸ ha)
  · rcases mem_set hkw with hin | heq
    · exact hmembers k w hin
    · obtain ⟨rfl, rfl⟩ := Prod.mk.inj heq
      exact ⟨hk, hv⟩

/-- What one round of reading may rely on: the rounds below it read well-formed values. -/
structure ReadsWellFormed (n : Nat) : Prop where
  value : ∀ {depth t v r}, Utf8.Encodable t → readValue n depth t = .ok (v, r) →
    v.WellFormed ∧ Utf8.Encodable r
  items : ∀ {depth done t xs r}, Utf8.Encodable t → (∀ x ∈ done, x.WellFormed) →
    readItems n depth done t = .ok (xs, r) → (∀ x ∈ xs, x.WellFormed) ∧ Utf8.Encodable r
  members : ∀ {depth done t ms r}, Utf8.Encodable t → (object done).WellFormed →
    readMembers n depth done t = .ok (ms, r) → (object ms).WellFormed ∧ Utf8.Encodable r

theorem ReadsWellFormed.readsMember {n depth : Nat} {t key r : Text} {v : Json}
    (ih : ReadsWellFormed n) (ht : Utf8.Encodable t) (h : ReadsMember n depth t key v r) :
    key.Unpaired ∧ v.WellFormed ∧ Utf8.Encodable r := by
  obtain ⟨-, s, u, hq, hcolon, hv⟩ := h
  obtain ⟨hkey, hs⟩ := readQuoted_wellFormed ht hq
  exact ⟨hkey, ih.value (encodable_skipSpace (encodable_of_skipSpace_eq hs hcolon)) hv⟩

theorem ValueRound.wellFormed {n depth : Nat} {t r : Text} {v : Json} (ih : ReadsWellFormed n)
    (ht : Utf8.Encodable t) (h : ValueRound n depth t v r) : v.WellFormed ∧ Utf8.Encodable r := by
  cases h with
  | text hq =>
    obtain ⟨hs, hr⟩ := readQuoted_wellFormed ht hq
    exact ⟨wellFormed_text.mpr hs, hr⟩
  | emptyObject hskip =>
    exact ⟨by simp, encodable_of_skipSpace_eq (Utf8.encodable_cons.mp ht).2 hskip⟩
  | object _ hm => exact ih.members (encodable_skipSpace (Utf8.encodable_cons.mp ht).2) (by simp) hm
  | emptyList hskip =>
    exact ⟨by simp, encodable_of_skipSpace_eq (Utf8.encodable_cons.mp ht).2 hskip⟩
  | list _ hi =>
    obtain ⟨hxs, hr⟩ :=
      ih.items (encodable_skipSpace (Utf8.encodable_cons.mp ht).2) (List.forall_mem_nil _) hi
    exact ⟨wellFormed_list.mpr hxs, hr⟩
  | scalar _ _ _ hv =>
    obtain ⟨hscalar, hsuffix⟩ := readScalar_ok hv
    exact ⟨hscalar.wellFormed, fun c hc => ht c (hsuffix.subset hc)⟩

theorem ItemsRound.wellFormed {n depth : Nat} {t r : Text} {done xs : List Json}
    (ih : ReadsWellFormed n) (ht : Utf8.Encodable t) (hdone : ∀ x ∈ done, x.WellFormed)
    (h : ItemsRound n depth done t xs r) : (∀ x ∈ xs, x.WellFormed) ∧ Utf8.Encodable r := by
  cases h with
  | last hv hskip =>
    obtain ⟨hwf, hu⟩ := ih.value ht hv
    have hall := List.forall_mem_cons.mpr ⟨hwf, hdone⟩
    exact ⟨fun x hx => hall x (List.mem_reverse.mp hx), encodable_of_skipSpace_eq hu hskip⟩
  | more hv hskip hi =>
    obtain ⟨hwf, hu⟩ := ih.value ht hv
    have hs := encodable_of_skipSpace_eq hu hskip
    exact ih.items (encodable_skipSpace hs) (List.forall_mem_cons.mpr ⟨hwf, hdone⟩) hi

theorem MembersRound.wellFormed {n depth : Nat} {t r : Text} {done ms : Members}
    (ih : ReadsWellFormed n) (ht : Utf8.Encodable t) (hdone : (object done).WellFormed)
    (h : MembersRound n depth done t ms r) : (object ms).WellFormed ∧ Utf8.Encodable r := by
  cases h with
  | last hm hskip =>
    obtain ⟨hkey, hwf, hu⟩ := ih.readsMember ht hm
    exact ⟨wellFormed_set hdone hkey hwf, encodable_of_skipSpace_eq hu hskip⟩
  | more hm hskip hms =>
    obtain ⟨hkey, hwf, hu⟩ := ih.readsMember ht hm
    have hs := encodable_of_skipSpace_eq hu hskip
    exact ih.members (encodable_skipSpace hs) (wellFormed_set hdone hkey hwf) hms

theorem readsWellFormed (n : Nat) : ReadsWellFormed n := by
  induction n with
  | zero =>
    -- Without rounds nothing is read.
    exact ⟨fun _ h => (nomatch h), fun _ _ h => (nomatch h), fun _ _ h => (nomatch h)⟩
  | succ n ih =>
    exact ⟨fun ht h => (readValue_succ_iff.mp h).wellFormed ih ht,
      fun ht hdone h => (readItems_succ_iff.mp h).wellFormed ih ht hdone,
      fun ht hdone h => (readMembers_succ_iff.mp h).wellFormed ih ht hdone⟩

/-- A value of a whole text was read at its front. -/
theorem readValue_of_read {t : Text} {v : Json} (h : read t = .ok v) :
    ∃ r, readValue (2 * t.length + 2) maxDepth (skipSpace t) = .ok (v, r) := by
  have htext : readText t = .ok v := by
    unfold read at h
    split at h
    next hr => rw [hr, Except.ok.inj h]
    all_goals cases h
  unfold readText at htext
  split_ifs at htext
  rcases hv : readValue (2 * t.length + 2) maxDepth (skipSpace t) with stop | ⟨w, r⟩
  · simp [hv] at htext
  simp only [hv] at htext
  split_ifs at htext
  obtain rfl := Except.ok.inj htext
  exact ⟨r, rfl⟩

/-- What is read from a text without surrogates is well formed. -/
theorem wellFormed_of_read {t : Text} {v : Json} (ht : Utf8.Encodable t) (h : read t = .ok v) :
    v.WellFormed := by
  obtain ⟨r, hv⟩ := readValue_of_read h
  exact ((readsWellFormed _).value (encodable_skipSpace ht) hv).1

end TitleClasses.Json
