import Mathlib.Tactic.SplitIfs
import TitleClasses.Text.Lines
import TitleClasses.Text.Utf8

/-!
# Texts and their bytes

A text without surrogates has bytes, and decoding them gives it back: `decode_bytesOf`. What was decoded
has no surrogates: `encodable_of_decode`. So the bytes of a file and the text in it tell the same, as
far as line ends are line feeds.
-/

namespace TitleClasses.Utf8

/-- The bytes of a text, one code point after another. -/
def bytesOf (t : Text) : Bytes := t.flatMap encodeOne

/-- Whether a text has bytes: none of its code points is a surrogate. -/
def Encodable (t : Text) : Prop := ∀ c ∈ t, c.isSurrogate = false

/-! ### Encoding -/

theorem encodable_cons {c : CodePoint} {t : Text} :
    Encodable (c :: t) ↔ c.isSurrogate = false ∧ Encodable t := List.forall_mem_cons

/-- A text has a run of surrogates exactly when one of its code points is a surrogate. -/
theorem firstSurrogates_eq_none_iff (t : Text) : firstSurrogates t = none ↔ Encodable t := by
  unfold firstSurrogates Encodable
  rw [Option.map_eq_none_iff, List.head?_eq_none_iff]
  induction t with
  | nil => simp
  | cons c r ih =>
    cases hc : c.isSurrogate with
    | true => simp [hc]
    | false => simpa [hc] using ih

/-- Encoding gives the bytes of a text that has bytes, and fails for any other. -/
theorem encode_eq_ok_iff {t : Text} {bytes : Bytes} :
    encode t = .ok bytes ↔ Encodable t ∧ bytes = bytesOf t := by
  rw [← firstSurrogates_eq_none_iff]
  unfold encode bytesOf
  cases firstSurrogates t with
  | none => simp [eq_comm]
  | some run => simp

/-! ### Decoding -/

theorem toNat_toUInt8 {n : Nat} (h : n < 256) : n.toUInt8.toNat = n := by
  rw [Nat.toUInt8, UInt8.toNat_ofNat', Nat.mod_eq_of_lt h]

theorem ofNat_val (c : CodePoint) : CodePoint.ofNat c.val = c :=
  Fin.ext (Nat.mod_eq_of_lt c.isLt)

theorem isSurrogate_eq_false_iff (c : CodePoint) :
    c.isSurrogate = false ↔ c.val < 0xd800 ∨ 0xdfff < c.val := by
  unfold CodePoint.isSurrogate
  simp only [Bool.and_eq_false_iff, decide_eq_false_iff_not]
  omega

theorem isContinuation_iff (b : UInt8) :
    isContinuation b = true ↔ 0x80 ≤ b.toNat ∧ b.toNat ≤ 0xbf := by
  unfold isContinuation
  rw [Bool.and_eq_true, decide_eq_true_iff, decide_eq_true_iff, UInt8.le_iff_toNat_le,
    UInt8.le_iff_toNat_le]
  rfl

/-- A continuation byte that may follow the first byte keeps the number in the range of that byte. -/
theorem mayFollow_iff (b c : UInt8) :
    mayFollow b c = true ↔ (0x80 ≤ c.toNat ∧ c.toNat ≤ 0xbf) ∧
      (b.toNat = 0xe0 → 0xa0 ≤ c.toNat) ∧ (b.toNat = 0xed → c.toNat < 0xa0) ∧
      (b.toNat = 0xf0 → 0x90 ≤ c.toNat) ∧ (b.toNat = 0xf4 → c.toNat < 0x90) := by
  have heq (k : UInt8) : b = k ↔ b.toNat = k.toNat := UInt8.toNat_inj.symm
  unfold mayFollow
  rw [Bool.and_eq_true, isContinuation_iff]
  simp only [heq, show (0xe0 : UInt8).toNat = 0xe0 from rfl, show (0xed : UInt8).toNat = 0xed from rfl,
    show (0xf0 : UInt8).toNat = 0xf0 from rfl, show (0xf4 : UInt8).toNat = 0xf4 from rfl]
  refine and_congr_right fun _ => ?_
  split_ifs with h1 h2 h3 h4 <;>
    simp only [true_iff, decide_eq_true_iff, UInt8.le_iff_toNat_le, UInt8.lt_iff_toNat_lt,
      show (0xa0 : UInt8).toNat = 0xa0 from rfl, show (0x90 : UInt8).toNat = 0x90 from rfl] <;> omega

/-- Whether a byte begins a character of two, three or four bytes is told by its number. -/
theorem readOne_of_ge {b : UInt8} (h : 0x80 ≤ b.toNat) (rest : Bytes) :
    readOne b rest =
      if b.toNat < 0xc2 ∨ 0xf5 ≤ b.toNat then .fault 1 .start
      else if b.toNat < 0xe0 then
        match rest with
        | [] => .fault 1 .truncated
        | c :: _ =>
          if isContinuation c then .character (CodePoint.ofNat (b.toNat % 0x20 * 0x40 + payload c)) 2
          else .fault 1 .continuation
      else if b.toNat < 0xf0 then
        match rest with
        | [] => .fault 1 .truncated
        | [c] => if mayFollow b c then .fault 2 .truncated else .fault 1 .continuation
        | c :: d :: _ =>
          if !mayFollow b c then .fault 1 .continuation
          else if !isContinuation d then .fault 2 .continuation
          else .character
            (CodePoint.ofNat (b.toNat % 0x10 * 0x1000 + payload c * 0x40 + payload d)) 3
      else
        match rest with
        | [] => .fault 1 .truncated
        | [c] => if mayFollow b c then .fault 2 .truncated else .fault 1 .continuation
        | [c, d] =>
          if !mayFollow b c then .fault 1 .continuation
          else if !isContinuation d then .fault 2 .continuation
          else .fault 3 .truncated
        | c :: d :: e :: _ =>
          if !mayFollow b c then .fault 1 .continuation
          else if !isContinuation d then .fault 2 .continuation
          else if !isContinuation e then .fault 3 .continuation
          else .character (CodePoint.ofNat
            (b.toNat % 8 * 0x40000 + payload c * 0x1000 + payload d * 0x40 + payload e)) 4 := by
  have hlt (k : UInt8) : b < k ↔ b.toNat < k.toNat := UInt8.lt_iff_toNat_lt
  have hle (k : UInt8) : k ≤ b ↔ k.toNat ≤ b.toNat := UInt8.le_iff_toNat_le
  unfold readOne
  rw [if_neg (by rw [hlt]; exact Nat.not_lt.mpr h)]
  simp only [Bool.or_eq_true, decide_eq_true_iff, hlt, hle]
  rfl

/-- The first byte of a code point is read as that code point when the others follow. -/
theorem readOne_encodeOne {c : CodePoint} (h : c.isSurrogate = false) (rest : Bytes) :
    ∃ b tail, encodeOne c = b :: tail ∧ readOne b (tail ++ rest) = .character c (tail.length + 1) := by
  have hlt := c.isLt
  rw [isSurrogate_eq_false_iff] at h
  have hval (n : Nat) (hn : n = c.val) : CodePoint.ofNat n = c := hn ▸ ofNat_val c
  have hcont (n : Nat) : (0x80 + n % 0x40).toUInt8.toNat = 0x80 + n % 0x40 :=
    toNat_toUInt8 (by omega)
  have hiscont (n : Nat) : isContinuation (0x80 + n % 0x40).toUInt8 = true := by
    rw [isContinuation_iff, hcont]
    omega
  unfold encodeOne
  simp only
  split_ifs with h1 h2 h3
  · -- One byte, which is the number itself.
    refine ⟨_, [], rfl, ?_⟩
    have hb : c.val.toUInt8.toNat = c.val := toNat_toUInt8 (by omega)
    have hlow : c.val.toUInt8 < 0x80 := by
      rw [UInt8.lt_iff_toNat_lt, hb]
      exact h1
    unfold readOne
    rw [if_pos hlow, hb, ofNat_val]
    rfl
  · -- Two bytes, the first of which is at least 0xc2, since the number is at least 0x80.
    refine ⟨_, [_], rfl, ?_⟩
    have hb : (0xc0 + c.val / 0x40).toUInt8.toNat = 0xc0 + c.val / 0x40 := toNat_toUInt8 (by omega)
    rw [readOne_of_ge (by omega), hb, if_neg (by omega), if_pos (by omega)]
    simp only [List.cons_append, hiscont, if_true, payload, hcont]
    rw [hval _ (by omega)]
    rfl
  · -- Three bytes: the second may follow, since the number is at least 0x800 and no surrogate.
    refine ⟨_, [_, _], rfl, ?_⟩
    have hb : (0xe0 + c.val / 0x1000).toUInt8.toNat = 0xe0 + c.val / 0x1000 :=
      toNat_toUInt8 (by omega)
    have hmay :
        mayFollow (0xe0 + c.val / 0x1000).toUInt8 (0x80 + c.val / 0x40 % 0x40).toUInt8 = true := by
      rw [mayFollow_iff, hb, hcont]
      omega
    rw [readOne_of_ge (by omega), hb, if_neg (by omega), if_neg (by omega), if_pos (by omega)]
    simp only [List.cons_append, hmay, hiscont, Bool.not_true, Bool.false_eq_true, if_false, payload,
      hcont]
    rw [hval _ (by omega)]
    rfl
  · -- Four bytes: the second may follow, since the number is between 0x10000 and 0x10ffff.
    refine ⟨_, [_, _, _], rfl, ?_⟩
    have hb : (0xf0 + c.val / 0x40000).toUInt8.toNat = 0xf0 + c.val / 0x40000 :=
      toNat_toUInt8 (by omega)
    have hmay : mayFollow (0xf0 + c.val / 0x40000).toUInt8 (0x80 + c.val / 0x1000 % 0x40).toUInt8 =
        true := by
      rw [mayFollow_iff, hb, hcont]
      omega
    rw [readOne_of_ge (by omega), hb, if_neg (by omega), if_neg (by omega), if_neg (by omega)]
    simp only [List.cons_append, hmay, hiscont, Bool.not_true, Bool.false_eq_true, if_false, payload,
      hcont]
    rw [hval _ (by omega)]
    rfl

/-- A character that was read is no surrogate. -/
theorem isSurrogate_of_readOne {b : UInt8} {rest : Bytes} {c : CodePoint} {width : Nat}
    (h : readOne b rest = .character c width) : c.isSurrogate = false := by
  -- It is enough to know the range of the number that was put together.
  have hval {n : Nat} (hn : n < 0xd800 ∨ (0xdfff < n ∧ n < 0x110000)) :
      (CodePoint.ofNat n).isSurrogate = false := by
    rw [isSurrogate_eq_false_iff]
    show n % 0x110000 < 0xd800 ∨ 0xdfff < n % 0x110000
    omega
  have hb := b.toNat_lt
  by_cases h0 : b.toNat < 0x80
  · have hlow : b < 0x80 := UInt8.lt_iff_toNat_lt.mpr h0
    unfold readOne at h
    rw [if_pos hlow] at h
    obtain ⟨rfl, -⟩ := Reading.character.inj h
    exact hval (by omega)
  · rw [readOne_of_ge (by omega)] at h
    split_ifs at h with h1 h2 h3
    · split at h
      · cases h
      · rename_i d _
        split_ifs at h with hd
        obtain ⟨rfl, -⟩ := Reading.character.inj h
        exact hval (by unfold payload; omega)
    · split at h
      · cases h
      · split_ifs at h
      · rename_i d e _
        split_ifs at h with hd he
        obtain ⟨rfl, -⟩ := Reading.character.inj h
        rw [Bool.not_eq_true', Bool.not_eq_false, mayFollow_iff] at hd
        exact hval (by unfold payload; omega)
    · split at h
      · cases h
      · split_ifs at h
      · split_ifs at h
      · rename_i d e f _
        split_ifs at h with hd he hf
        obtain ⟨rfl, -⟩ := Reading.character.inj h
        rw [Bool.not_eq_true', Bool.not_eq_false, mayFollow_iff] at hd
        exact hval (by unfold payload; omega)

/-- The bytes of a character that was read are passed over. -/
theorem decodeFrom_skip (tail rest : Bytes) (position : Nat) (done : Text) :
    decodeFrom position tail.length done (tail ++ rest) =
      decodeFrom (position + tail.length) 0 done rest := by
  induction tail generalizing position with
  | nil => rfl
  | cons b tail ih =>
    rw [List.cons_append, List.length_cons, decodeFrom, ih]
    congr 1
    omega

/-- Decoding goes on behind the bytes of a text with the text read. -/
theorem decodeFrom_bytesOf {t : Text} (h : Encodable t) (rest : Bytes) (position : Nat) (done : Text) :
    decodeFrom position 0 done (bytesOf t ++ rest) =
      decodeFrom (position + (bytesOf t).length) 0 (t.reverse ++ done) rest := by
  -- What was decoded before the text is any text, so that the induction can go on with one more.
  induction t generalizing position done with
  | nil => rfl
  | cons c r ih =>
    obtain ⟨hc, hr⟩ := encodable_cons.mp h
    obtain ⟨b, tail, he, hread⟩ := readOne_encodeOne hc (bytesOf r ++ rest)
    have hbytes : bytesOf (c :: r) = b :: (tail ++ bytesOf r) := by
      show encodeOne c ++ bytesOf r = _
      rw [he, List.cons_append]
    rw [hbytes, List.cons_append, List.append_assoc, decodeFrom, hread]
    simp only [Nat.add_sub_cancel]
    rw [decodeFrom_skip, ih hr]
    congr 1
    · simp only [List.length_cons, List.length_append]
      omega
    · simp

/-- Decoding the bytes of a text gives the text back. -/
theorem decode_bytesOf {t : Text} (h : Encodable t) : decode (bytesOf t) = .ok t := by
  have hd := decodeFrom_bytesOf h [] 0 []
  rw [List.append_nil, List.append_nil] at hd
  rw [decode, hd, decodeFrom, List.reverse_reverse]

/-- Decoding adds no surrogate to what was read. -/
theorem encodable_of_decodeFrom {bytes : Bytes} {t : Text} {position skip : Nat} {done : Text}
    (hd : Encodable done) (h : decodeFrom position skip done bytes = .ok t) : Encodable t := by
  induction bytes generalizing position skip done with
  | nil =>
    obtain rfl := Except.ok.inj h
    exact fun c hc => hd c (List.mem_reverse.mp hc)
  | cons b rest ih =>
    cases skip with
    | succ n => exact ih hd h
    | zero =>
      rw [decodeFrom] at h
      cases hr : readOne b rest with
      | fault width defect => simp [hr] at h
      | character c width =>
        simp only [hr] at h
        exact ih (encodable_cons.mpr ⟨isSurrogate_of_readOne hr, hd⟩) h

/-- What was decoded has no surrogates. -/
theorem encodable_of_decode {bytes : Bytes} {t : Text} (h : decode bytes = .ok t) : Encodable t :=
  encodable_of_decodeFrom (by simp [Encodable]) h

/-- The bytes of a text tell the text. -/
theorem bytesOf_injective {t u : Text} (ht : Encodable t) (hu : Encodable u)
    (h : bytesOf t = bytesOf u) : t = u := by
  have hd := decode_bytesOf ht
  rw [h, decode_bytesOf hu] at hd
  exact (Except.ok.inj hd).symm

end TitleClasses.Utf8

namespace TitleClasses.Text

/-! ### Written-out strings

To find the characters of such a string, a computation decodes its bytes, which is most of its work. It
begins at the characters once the string has been rewritten with these two. -/

theorem ofString_ofList (l : List Char) : ofString (String.ofList l) = l.map CodePoint.ofChar := by
  rw [ofString, String.toList_ofList]

theorem ofString_append (s t : String) : ofString (s ++ t) = ofString s ++ ofString t := by
  rw [ofString, String.toList_append, List.map_append]
  rfl

/-! ### Line ends -/

/-- A text without carriage returns keeps its line ends. -/
theorem unifyLineEnds_of_no_return {t : Text} (h : ∀ c ∈ t, c ≠ ('\r' : Char)) :
    t.unifyLineEnds = t := by
  have hfrom (done : Text) : unifyFrom false done t = done.reverse ++ t := by
    induction t generalizing done with
    | nil => simp [unifyFrom]
    | cons c r ih =>
      obtain ⟨hc, hr⟩ := List.forall_mem_cons.mp h
      rw [unifyFrom, if_neg hc, Bool.and_false, if_neg Bool.false_ne_true, ih hr]
      simp
  exact hfrom []

theorem mem_of_mem_unifyFrom {t : Text} {c : CodePoint} {after : Bool} {done : Text}
    (h : c ∈ unifyFrom after done t) : c ∈ done ∨ c ∈ t ∨ c = ('\n' : Char) := by
  induction t generalizing after done with
  | nil => exact Or.inl (List.mem_reverse.mp h)
  | cons d r ih =>
    rw [unifyFrom] at h
    split_ifs at h with h1 h2
    · -- A carriage return becomes a line feed.
      rcases ih h with hd | hr | hn
      · rcases List.mem_cons.mp hd with hn | hd
        · exact Or.inr (Or.inr hn)
        · exact Or.inl hd
      · exact Or.inr (Or.inl (List.mem_cons_of_mem d hr))
      · exact Or.inr (Or.inr hn)
    · -- A line feed after a carriage return is dropped.
      rcases ih h with hd | hr | hn
      · exact Or.inl hd
      · exact Or.inr (Or.inl (List.mem_cons_of_mem d hr))
      · exact Or.inr (Or.inr hn)
    · rcases ih h with hd | hr | hn
      · rcases List.mem_cons.mp hd with rfl | hd
        · exact Or.inr (Or.inl List.mem_cons_self)
        · exact Or.inl hd
      · exact Or.inr (Or.inl (List.mem_cons_of_mem d hr))
      · exact Or.inr (Or.inr hn)

/-- Making line ends one brings in no character but the line feed. -/
theorem mem_of_mem_unifyLineEnds {t : Text} {c : CodePoint} (h : c ∈ t.unifyLineEnds) :
    c ∈ t ∨ c = ('\n' : Char) := by
  rcases mem_of_mem_unifyFrom h with hd | h
  · cases hd
  · exact h

end TitleClasses.Text
