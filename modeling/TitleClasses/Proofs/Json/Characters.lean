import TitleClasses.Proofs.Json.RoundTrip
import TitleClasses.Proofs.Text.Utf8

/-!
# The characters of written values

A written value has no characters but those that are written for its texts, and such as are printable in
ASCII or end lines: `all_writeAt` goes once over all values for any property of characters, and
`allTexts_of_writeAt` goes back from what was written to the texts. So what is written has no carriage
returns (`write_no_return`), and has bytes if only ASCII is written (`write_encodable`), or else exactly if
the texts in it have (`write_encodable_iff`).
-/

namespace TitleClasses.Json

open Text (digit)

/-- The characters of written values: line feeds, and what is no control character; in ASCII only
printable characters. -/
def Shown (ascii : Bool) (c : CodePoint) : Prop :=
  c = ('\n' : Char) ∨ (0x20 ≤ c.val ∧ (ascii = true → c.val ≤ 0x7e))

theorem shown_printable {ascii : Bool} {c : CodePoint} (h : 0x20 ≤ c.val ∧ c.val ≤ 0x7e) :
    Shown ascii c := Or.inr ⟨h.1, fun _ => h.2⟩

/-- Texts whose characters may all stand in written values. -/
def AllShown (ascii : Bool) (t : Text) : Prop := ∀ c ∈ t, Shown ascii c

theorem AllShown.append {ascii : Bool} {t u : Text} (ht : AllShown ascii t) (hu : AllShown ascii u) :
    AllShown ascii (t ++ u) := fun c hc =>
  (List.mem_append.mp hc).elim (ht c) (hu c)

theorem allShown_word {ascii : Bool} {t : Text}
    (h : t.all fun c => 0x20 ≤ c.val && c.val ≤ 0x7e) : AllShown ascii t := by
  intro c hc
  have := List.all_eq_true.mp h c hc
  simp only [Bool.and_eq_true, decide_eq_true_iff] at this
  exact shown_printable this

theorem shown_digit {ascii : Bool} {n : Nat} (h : n < 16) : Shown ascii (digit n) := by
  have hall : ∀ m < 16, 0x20 ≤ (digit m).val ∧ (digit m).val ≤ 0x7e := by decide
  exact shown_printable (hall n h)

theorem shown_unitEscape {ascii : Bool} {n : Nat} (h : n < 0x10000) :
    AllShown ascii (unitEscape n) := by
  intro c hc
  unfold unitEscape at hc
  rw [Text.padded_unit h] at hc
  rcases List.mem_append.mp hc with hc | hc
  · exact allShown_word (by decide) c hc
  · simp only [List.mem_cons, List.not_mem_nil, or_false] at hc
    rcases hc with rfl | rfl | rfl | rfl <;> exact shown_digit (by omega)

/-- What is printable in ASCII is shown in any case. -/
theorem Shown.of_ascii {ascii : Bool} {c : CodePoint} (h : Shown true c) : Shown ascii c :=
  h.imp_right fun h => ⟨h.1, fun _ => h.2 rfl⟩

/-- A character is written by an escape, or as it is. -/
theorem writeOne_cases (ascii : Bool) (c : CodePoint) :
    AllShown true (writeOne ascii c) ∨ (writeOne ascii c = [c] ∧ Shown ascii c) := by
  have hlt := c.isLt
  unfold writeOne codeEscape
  split_ifs with h1 h2 h3 h4 h5 h6 h7 h8 h9 h10
  · -- Escapes of one letter.
    exact Or.inl (allShown_word (by decide))
  · exact Or.inl (allShown_word (by decide))
  · exact Or.inl (allShown_word (by decide))
  · exact Or.inl (allShown_word (by decide))
  · exact Or.inl (allShown_word (by decide))
  · exact Or.inl (allShown_word (by decide))
  · exact Or.inl (allShown_word (by decide))
  · -- Escapes of one unit or two.
    exact Or.inl (shown_unitEscape (by omega))
  · exact Or.inl (shown_unitEscape h10)
  · exact Or.inl (AllShown.append (shown_unitEscape (by omega)) (shown_unitEscape (by omega)))
  · -- The character itself, which is no control character, and in ASCII printable.
    refine Or.inr ⟨rfl, Or.inr ⟨by omega, fun ha => ?_⟩⟩
    rw [ha, Bool.true_and, decide_eq_true_iff] at h9
    omega

theorem shown_writeOne (ascii : Bool) (c : CodePoint) : AllShown ascii (writeOne ascii c) := by
  rcases writeOne_cases ascii c with h | ⟨h, hc⟩
  · exact fun d hd => (h d hd).of_ascii
  · rw [h]
    exact fun d hd => List.mem_singleton.mp hd ▸ hc

theorem shown_writeText (ascii : Bool) (t : Text) : AllShown ascii (writeText ascii t) := by
  have hquote : Shown ascii ('"' : Char) := shown_printable (by decide)
  intro c hc
  change c ∈ ('"' : CodePoint) :: t.flatMap (writeOne ascii) ++ [('"' : CodePoint)] at hc
  rcases List.mem_append.mp hc with hc | hc
  · rcases List.mem_cons.mp hc with rfl | hc
    · exact hquote
    · obtain ⟨d, -, hd⟩ := List.mem_flatMap.mp hc
      exact shown_writeOne ascii d c hd
  · obtain rfl := List.mem_singleton.mp hc
    exact hquote

theorem shown_ofInt (ascii : Bool) (i : Int) : AllShown ascii (Text.ofInt i) := by
  have hnat (m : Nat) : AllShown ascii (Text.ofNat m) := by
    intro c hc
    have hd := (ofNat_digits m).1 c hc
    simp only [isDigit, Bool.and_eq_true, decide_eq_true_iff] at hd
    exact shown_printable (by omega)
  cases i with
  | ofNat m => exact hnat m
  | negSucc m =>
    intro c hc
    rcases List.mem_cons.mp hc with rfl | hc
    · exact shown_printable (by decide)
    · exact hnat (m + 1) c hc

theorem shown_lineBreak (ascii : Bool) (style : Style) (level : Nat) :
    AllShown ascii (lineBreak style level) := by
  intro c hc
  unfold lineBreak at hc
  cases hi : style.indent with
  | none => simp [hi] at hc
  | some n =>
    simp only [hi] at hc
    rcases List.mem_cons.mp hc with rfl | hc
    · exact Or.inl rfl
    · rw [List.eq_of_mem_replicate hc]
      exact shown_printable (by decide)

theorem shown_separator (ascii : Bool) (style : Style) (level : Nat) :
    AllShown ascii (separator style level) := by
  unfold separator
  split_ifs
  · exact allShown_word (by decide)
  · exact AllShown.append (allShown_word (by decide)) (shown_lineBreak ascii style level)

mutual

/-- Whether all texts in a value have a property, the keys of objects among them. -/
def AllTexts (Q : Text → Prop) : Json → Prop
  | .text t => Q t
  | .list xs => AllTextsItems Q xs
  | .object ms => AllTextsMembers Q ms
  | _ => True

/-- Whether all texts in the items of a list have a property. -/
def AllTextsItems (Q : Text → Prop) : List Json → Prop
  | [] => True
  | x :: xs => AllTexts Q x ∧ AllTextsItems Q xs

/-- Whether all texts in the members of an object have a property. -/
def AllTextsMembers (Q : Text → Prop) : List (Text × Json) → Prop
  | [] => True
  | (k, v) :: ms => Q k ∧ AllTexts Q v ∧ AllTextsMembers Q ms

end

theorem allTextsItems_iff {Q : Text → Prop} {xs : List Json} :
    AllTextsItems Q xs ↔ ∀ x ∈ xs, AllTexts Q x := by
  induction xs with
  | nil => simp [AllTextsItems]
  | cons x xs ih => rw [AllTextsItems, ih, List.forall_mem_cons]

theorem allTextsMembers_iff {Q : Text → Prop} {ms : Members} :
    AllTextsMembers Q ms ↔ ∀ m ∈ ms, Q m.1 ∧ AllTexts Q m.2 := by
  induction ms with
  | nil => simp [AllTextsMembers]
  | cons m ms ih => rw [AllTextsMembers, ih, List.forall_mem_cons, and_assoc]

/-- Whether a property of characters holds of those that are written for texts with a property, and of all
that are printable or end lines. -/
structure HoldsWritten (ascii : Bool) (P : CodePoint → Prop) (Q : Text → Prop) : Prop where
  shown : ∀ c, Shown true c → P c
  text : ∀ t, Q t → ∀ c ∈ writeText ascii t, P c

section Written

variable {style : Style} {P : CodePoint → Prop} {Q : Text → Prop} (hP : HoldsWritten style.ascii P Q)
include hP

theorem HoldsWritten.append {t u : Text} (ht : AllShown true t) (hu : ∀ c ∈ u, P c) :
    ∀ c ∈ t ++ u, P c := fun c hc =>
  (List.mem_append.mp hc).elim (fun hc => hP.shown c (ht c hc)) (hu c)

theorem HoldsWritten.append_text {t u : Text} (ht : Q t) (hu : ∀ c ∈ u, P c) :
    ∀ c ∈ writeText style.ascii t ++ u, P c := fun c hc =>
  (List.mem_append.mp hc).elim (hP.text t ht c) (hu c)

mutual

/-- A written value has no characters but those of its texts, and such as are printable or end lines. -/
theorem all_writeAt : ∀ (v : Json) (level : Nat) (rest : Text), Readable style.ascii v →
    AllTexts Q v → (∀ c ∈ rest, P c) → ∀ c ∈ writeAt style level v rest, P c
  | .float x, _, _, hv, _, _ => hv.elim
  | .null, level, rest, _, _, hr => hP.append (allShown_word (by decide)) hr
  | .bool b, level, rest, _, _, hr => by
    rw [writeAt]
    exact hP.append (by cases b <;> exact allShown_word (by decide)) hr
  | .int i, level, rest, _, _, hr => by
    rw [writeAt]
    exact hP.append (shown_ofInt _ i) hr
  | .text t, level, rest, _, ht, hr => by
    rw [writeAt]
    exact hP.append_text ht hr
  | .list [], level, rest, _, _, hr => hP.append (allShown_word (by decide)) hr
  | .list (x :: xs), level, rest, hv, ht, hr => by
    rw [writeAt]
    have hclose := hP.append (shown_lineBreak _ style level)
      (hP.append (allShown_word (by decide) : AllShown true "]") hr)
    exact hP.append (allShown_word (by decide)) (hP.append (shown_lineBreak _ style _)
      (all_writeAt x _ _ hv.1 ht.1 (all_writeItems xs _ _ hv.2 ht.2 hclose)))
  | .object [], level, rest, _, _, hr => hP.append (allShown_word (by decide)) hr
  | .object ((k, v) :: ms), level, rest, hv, ht, hr => by
    rw [writeAt, writeMember]
    have hclose := hP.append (shown_lineBreak _ style level)
      (hP.append (allShown_word (by decide) : AllShown true "\x7d") hr)
    have hvalue := all_writeAt v (level + 1) _ hv.2.2.1 ht.2.1
      (all_writeMembers ms (level + 1) _ hv.2.2.2 ht.2.2 hclose)
    exact hP.append (allShown_word (by decide)) (hP.append (shown_lineBreak _ style _)
      (hP.append_text ht.1 (hP.append (allShown_word (by decide)) hvalue)))

theorem all_writeItems : ∀ (xs : List Json) (level : Nat) (rest : Text), ReadableItems style.ascii xs →
    AllTextsItems Q xs → (∀ c ∈ rest, P c) → ∀ c ∈ writeItems style level xs rest, P c
  | [], level, rest, _, _, hr => hr
  | x :: xs, level, rest, hv, ht, hr => by
    rw [writeItems]
    exact hP.append (shown_separator _ style level)
      (all_writeAt x _ _ hv.1 ht.1 (all_writeItems xs _ _ hv.2 ht.2 hr))

theorem all_writeMembers : ∀ (ms : Members) (level : Nat) (rest : Text),
    ReadableMembers style.ascii ms → AllTextsMembers Q ms → (∀ c ∈ rest, P c) →
    ∀ c ∈ writeMembers style level ms rest, P c
  | [], level, rest, _, _, hr => hr
  | (k, v) :: ms, level, rest, hv, ht, hr => by
    rw [writeMembers, writeMember]
    have hvalue := all_writeAt v level _ hv.2.1 ht.2.1 (all_writeMembers ms level _ hv.2.2 ht.2.2 hr)
    exact hP.append (shown_separator _ style level)
      (hP.append_text ht.1 (hP.append (allShown_word (by decide)) hvalue))

end

end Written

mutual

theorem allTexts_true : ∀ v : Json, AllTexts (fun _ => True) v
  | .text _ | .null | .bool _ | .int _ | .float _ => trivial
  | .list xs => allTextsItems_true xs
  | .object ms => allTextsMembers_true ms

theorem allTextsItems_true : ∀ xs : List Json, AllTextsItems (fun _ => True) xs
  | [] => trivial
  | x :: xs => ⟨allTexts_true x, allTextsItems_true xs⟩

theorem allTextsMembers_true : ∀ ms : List (Text × Json), AllTextsMembers (fun _ => True) ms
  | [] => trivial
  | (_, v) :: ms => ⟨trivial, allTexts_true v, allTextsMembers_true ms⟩

end

/-- A written value has no other characters than those that are shown. -/
theorem allShown_write {style : Style} {v : Json} (hv : Readable style.ascii v) :
    AllShown style.ascii (v.write style) := by
  have hshown : HoldsWritten style.ascii (Shown style.ascii) fun _ => True :=
    ⟨fun c h => h.of_ascii, fun t _ => shown_writeText style.ascii t⟩
  exact all_writeAt hshown v 0 [] hv (allTexts_true v) (List.forall_mem_nil _)

/-- Written values have no carriage returns. -/
theorem write_no_return {style : Style} {v : Json} (hv : Readable style.ascii v) :
    ∀ c ∈ v.write style, c ≠ ('\r' : Char) := by
  intro c hc heq
  subst heq
  rcases allShown_write hv _ hc with h | h
  · exact absurd h (by decide)
  · exact absurd h.1 (by decide)

/-- What is printable in ASCII or ends a line is no surrogate. -/
theorem Shown.encodable {t : Text} (h : AllShown true t) : Utf8.Encodable t := by
  intro c hc
  rw [Utf8.isSurrogate_eq_false_iff]
  rcases h c hc with rfl | hc
  · exact Or.inl (by decide)
  · have := hc.2 rfl
    exact Or.inl (by omega)

/-- What is written in ASCII has bytes. -/
theorem write_encodable {style : Style} (ha : style.ascii = true) {v : Json}
    (hv : Readable style.ascii v) : Utf8.Encodable (v.write style) :=
  Shown.encodable (ha ▸ allShown_write hv)

/-- A text without surrogates is written without surrogates. -/
theorem writeText_encodable (ascii : Bool) {t : Text} (ht : Utf8.Encodable t) :
    Utf8.Encodable (writeText ascii t) := by
  have hquote : Utf8.Encodable [('"' : CodePoint)] := Shown.encodable (allShown_word (by decide))
  intro c hc
  change c ∈ [('"' : CodePoint)] ++ t.flatMap (writeOne ascii) ++ [('"' : CodePoint)] at hc
  rw [List.append_assoc, List.mem_append, List.mem_append] at hc
  rcases hc with hc | hc | hc
  · exact hquote c hc
  · obtain ⟨d, hd, hc⟩ := List.mem_flatMap.mp hc
    rcases writeOne_cases ascii d with h | ⟨h, -⟩
    · exact Shown.encodable h c hc
    · rw [h, List.mem_singleton] at hc
      rw [hc]
      exact ht d hd
  · exact hquote c hc

/-- What is written has bytes if the texts in it have. -/
theorem write_encodable_of_texts {style : Style} {v : Json} (hv : Readable style.ascii v)
    (ht : AllTexts Utf8.Encodable v) : Utf8.Encodable (v.write style) := by
  have hencodable : HoldsWritten style.ascii (fun c => c.isSurrogate = false) Utf8.Encodable :=
    ⟨fun c h => Shown.encodable (t := [c]) (fun d hd => List.mem_singleton.mp hd ▸ h) c
      (List.mem_singleton_self c), fun t ht => writeText_encodable style.ascii ht⟩
  exact all_writeAt hencodable v 0 [] hv ht (List.forall_mem_nil _)

section Texts

variable {style : Style} {P : CodePoint → Prop}

mutual

/-- What holds of all characters of a written value holds of all that are written for its texts, and of
what follows it. -/
theorem allTexts_of_writeAt : ∀ (v : Json) (level : Nat) (rest : Text),
    (∀ c ∈ writeAt style level v rest, P c) →
      AllTexts (fun t => ∀ c ∈ writeText style.ascii t, P c) v ∧ ∀ c ∈ rest, P c
  | .null, _, rest, h => ⟨trivial, fun c hc => h c (List.mem_append_right _ hc)⟩
  | .bool b, _, rest, h => by
    rw [writeAt] at h
    exact ⟨trivial, fun c hc => h c (List.mem_append_right _ hc)⟩
  | .int i, _, rest, h => by
    rw [writeAt] at h
    exact ⟨trivial, fun c hc => h c (List.mem_append_right _ hc)⟩
  | .float x, _, rest, h => by
    rw [writeAt] at h
    exact ⟨trivial, fun c hc => h c (List.mem_append_right _ hc)⟩
  | .text t, _, rest, h => by
    rw [writeAt] at h
    exact List.forall_mem_append.mp h
  | .list [], _, rest, h => ⟨trivial, fun c hc => h c (List.mem_append_right _ hc)⟩
  | .list (x :: xs), level, rest, h => by
    rw [writeAt] at h
    simp only [List.forall_mem_append] at h
    obtain ⟨hx, hrest⟩ := allTexts_of_writeAt x _ _ h.2.2
    obtain ⟨hxs, hrest⟩ := allTexts_of_writeItems xs _ _ hrest
    simp only [List.forall_mem_append] at hrest
    exact ⟨⟨hx, hxs⟩, hrest.2.2⟩
  | .object [], _, rest, h => ⟨trivial, fun c hc => h c (List.mem_append_right _ hc)⟩
  | .object ((k, v) :: ms), level, rest, h => by
    rw [writeAt, writeMember] at h
    simp only [List.forall_mem_append] at h
    obtain ⟨hv, hrest⟩ := allTexts_of_writeAt v _ _ h.2.2.2.2
    obtain ⟨hms, hrest⟩ := allTexts_of_writeMembers ms _ _ hrest
    simp only [List.forall_mem_append] at hrest
    exact ⟨⟨h.2.2.1, hv, hms⟩, hrest.2.2⟩

theorem allTexts_of_writeItems : ∀ (xs : List Json) (level : Nat) (rest : Text),
    (∀ c ∈ writeItems style level xs rest, P c) →
      AllTextsItems (fun t => ∀ c ∈ writeText style.ascii t, P c) xs ∧ ∀ c ∈ rest, P c
  | [], _, rest, h => ⟨trivial, h⟩
  | x :: xs, level, rest, h => by
    rw [writeItems] at h
    obtain ⟨hx, hrest⟩ := allTexts_of_writeAt x _ _ (List.forall_mem_append.mp h).2
    obtain ⟨hxs, hrest⟩ := allTexts_of_writeItems xs _ _ hrest
    exact ⟨⟨hx, hxs⟩, hrest⟩

theorem allTexts_of_writeMembers : ∀ (ms : Members) (level : Nat) (rest : Text),
    (∀ c ∈ writeMembers style level ms rest, P c) →
      AllTextsMembers (fun t => ∀ c ∈ writeText style.ascii t, P c) ms ∧ ∀ c ∈ rest, P c
  | [], _, rest, h => ⟨trivial, h⟩
  | (k, v) :: ms, level, rest, h => by
    rw [writeMembers, writeMember] at h
    simp only [List.forall_mem_append] at h
    obtain ⟨hv, hrest⟩ := allTexts_of_writeAt v _ _ h.2.2.2
    obtain ⟨hms, hrest⟩ := allTexts_of_writeMembers ms _ _ hrest
    exact ⟨⟨h.2.1, hv, hms⟩, hrest⟩

end

end Texts

mutual

theorem AllTexts.mono {Q R : Text → Prop} (hqr : ∀ t, Q t → R t) : ∀ {v : Json}, AllTexts Q v →
    AllTexts R v
  | .text t, h => hqr t h
  | .null, _ | .bool _, _ | .int _, _ | .float _, _ => trivial
  | .list _, h => AllTextsItems.mono hqr h
  | .object _, h => AllTextsMembers.mono hqr h

theorem AllTextsItems.mono {Q R : Text → Prop} (hqr : ∀ t, Q t → R t) : ∀ {xs : List Json},
    AllTextsItems Q xs → AllTextsItems R xs
  | [], _ => trivial
  | _ :: _, ⟨hx, hxs⟩ => ⟨hx.mono hqr, hxs.mono hqr⟩

theorem AllTextsMembers.mono {Q R : Text → Prop} (hqr : ∀ t, Q t → R t) : ∀ {ms : List (Text × Json)},
    AllTextsMembers Q ms → AllTextsMembers R ms
  | [], _ => trivial
  | (_, _) :: _, ⟨hk, hv, hms⟩ => ⟨hqr _ hk, hv.mono hqr, hms.mono hqr⟩

end

/-- Unless only ASCII is written, surrogates are written as they are. -/
theorem encodable_of_writeText {t : Text} (h : Utf8.Encodable (writeText false t)) :
    Utf8.Encodable t := by
  intro c hc
  by_contra hsurrogate
  have hval : 0xd800 ≤ c.val ∧ c.val ≤ 0xdfff := by
    have := mt (Utf8.isSurrogate_eq_false_iff c).mpr hsurrogate
    omega
  -- No surrogate is written by an escape.
  have hother {d : CodePoint} (hd : d.val < 0xd800) : c ≠ d := by
    rintro rfl
    omega
  have hone : writeOne false c = [c] := by
    unfold writeOne
    rw [if_neg (hother (by decide)), if_neg (hother (by decide)), if_neg (hother (by decide)),
      if_neg (hother (by decide)), if_neg (hother (by decide)), if_neg (by omega), if_neg (by omega),
      if_neg (by omega), Bool.false_and, if_neg Bool.false_ne_true]
  have hin : c ∈ writeText false t :=
    List.mem_append_left _ (List.mem_append_right _ (List.mem_flatMap.mpr
      ⟨c, hc, hone.symm ▸ List.mem_singleton_self c⟩))
  exact hsurrogate (h c hin)

/-- What is written with all characters kept has bytes exactly if the texts in it have. -/
theorem write_encodable_iff {style : Style} (ha : style.ascii = false) {v : Json}
    (hv : Readable style.ascii v) :
    Utf8.Encodable (v.write style) ↔ AllTexts Utf8.Encodable v := by
  refine ⟨fun h => ?_, write_encodable_of_texts hv⟩
  obtain ⟨htexts, -⟩ := allTexts_of_writeAt v 0 [] h
  rw [ha] at htexts
  exact htexts.mono fun t ht => encodable_of_writeText ht

end TitleClasses.Json
