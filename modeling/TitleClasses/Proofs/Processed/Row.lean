import TitleClasses.Processed.Table
import TitleClasses.Proofs.Instant
import TitleClasses.Proofs.Json.RoundTrip
import TitleClasses.Proofs.Text.Utf8

/-!
# What a row tells

A row keeps labels and time as texts, from which both are read back: the labels in increasing order
(`Processed.labelsOf_rowOf_eq_joined`), the time as it was (`Processed.documentOf_row`). Labels are kept in
ASCII, where the two halves of a surrogate pair are written as the character is that they stand for
(`Json.writeOne_ofPair`); labels without such pairs are read back as they were
(`Processed.labelsOf_rowOf_eq_sorted`).
-/

namespace TitleClasses

/-! ### Pairs of surrogates -/

namespace CodePoint

/-- The character that the two halves of a surrogate pair stand for. -/
def ofPair (c d : CodePoint) : CodePoint :=
  ofNat (0x10000 + (c.val - 0xd800) * 0x400 + (d.val - 0xdc00))

variable {c d : CodePoint}

theorem isHigh_iff : c.isHigh = true ↔ 0xd800 ≤ c.val ∧ c.val ≤ 0xdbff := by simp [isHigh]

theorem isLow_iff : c.isLow = true ↔ 0xdc00 ≤ c.val ∧ c.val ≤ 0xdfff := by simp [isLow]

theorem val_ofPair (hc : c.isHigh = true) (hd : d.isLow = true) :
    (ofPair c d).val = 0x10000 + (c.val - 0xd800) * 0x400 + (d.val - 0xdc00) := by
  rw [isHigh_iff] at hc
  rw [isLow_iff] at hd
  exact Nat.mod_eq_of_lt (by omega)

/-- The character is no half of a pair itself. -/
theorem not_half_ofPair (hc : c.isHigh = true) (hd : d.isLow = true) :
    (ofPair c d).isHigh = false ∧ (ofPair c d).isLow = false := by
  rw [← Bool.not_eq_true, ← Bool.not_eq_true, isHigh_iff, isLow_iff, val_ofPair hc hd]
  omega

end CodePoint

/-- A text with the two halves of each surrogate pair made one character. -/
def Text.joined : Text → Text
  | [] => []
  | [c] => [c]
  | c :: d :: t => if c.isHigh && d.isLow then CodePoint.ofPair c d :: joined t else c :: joined (d :: t)

namespace Text

/-- The first character stays first, or is taken up into one that is no half of a pair. -/
theorem head_joined (c : CodePoint) (t : Text) : ∀ b ∈ (joined (c :: t)).head?, b = c ∨ b.isLow = false := by
  intro b hb
  cases t with
  | nil => exact Or.inl (Option.some.inj hb).symm
  | cons d t =>
    rw [joined] at hb
    split_ifs at hb with hpair
    · rw [Bool.and_eq_true] at hpair
      rw [← Option.some.inj hb]
      exact Or.inr (CodePoint.not_half_ofPair hpair.1 hpair.2).2
    · exact Or.inl (Option.some.inj hb).symm

theorem unpaired_joined (t : Text) : (joined t).Unpaired := by
  induction t using joined.induct with
  | case1 => exact List.isChain_nil
  | case2 c => exact List.isChain_singleton c
  | case3 c d t hpair ih =>
    rw [joined, if_pos hpair]
    rw [Bool.and_eq_true] at hpair
    refine List.isChain_cons.mpr ⟨fun b _ hhigh => ?_, ih⟩
    rw [(CodePoint.not_half_ofPair hpair.1 hpair.2).1] at hhigh
    cases hhigh
  | case4 c d t hpair ih =>
    rw [joined, if_neg hpair]
    refine List.isChain_cons.mpr ⟨fun b hb hhigh => ?_, ih⟩
    rcases head_joined d t b hb with rfl | hlow
    · simpa [hhigh] using hpair
    · exact hlow

theorem joined_of_unpaired {t : Text} (h : t.Unpaired) : t.joined = t := by
  induction t using joined.induct with
  | case1 => rfl
  | case2 c => rfl
  | case3 c d t hpair ih =>
    rw [Bool.and_eq_true] at hpair
    have hnot := (List.isChain_cons_cons.mp h).1 hpair.1
    rw [hpair.2] at hnot
    cases hnot
  | case4 c d t hpair ih =>
    rw [joined, if_neg hpair, ih (List.isChain_cons_cons.mp h).2]

end Text

namespace Json

theorem writeOne_of_large {c : CodePoint} (h : 0x7e < c.val) : writeOne true c = codeEscape c := by
  have hne (e : Char) (he : e.toNat ≤ 0x7e) : c ≠ (e : CodePoint) := by
    rintro rfl
    exact absurd h (Nat.not_lt.mpr he)
  unfold writeOne
  rw [if_neg (hne _ (by decide)), if_neg (hne _ (by decide)), if_neg (hne _ (by decide)),
    if_neg (hne _ (by decide)), if_neg (hne _ (by decide)), if_neg (by omega), if_neg (by omega),
    if_neg (by omega), if_pos (by simpa using h)]

/-- In ASCII a character is written as the two halves of its pair are. -/
theorem writeOne_ofPair {c d : CodePoint} (hc : c.isHigh = true) (hd : d.isLow = true) :
    writeOne true (.ofPair c d) = writeOne true c ++ writeOne true d := by
  have hval := CodePoint.val_ofPair hc hd
  rw [CodePoint.isHigh_iff] at hc
  rw [CodePoint.isLow_iff] at hd
  rw [writeOne_of_large (by omega), writeOne_of_large (by omega), writeOne_of_large (by omega)]
  have hhigh : 0xd800 + ((CodePoint.ofPair c d).val - 0x10000) / 0x400 = c.val := by omega
  have hlow : 0xdc00 + (CodePoint.ofPair c d).val % 0x400 = d.val := by omega
  unfold codeEscape
  rw [if_neg (by omega), if_pos (by omega), if_pos (by omega), hhigh, hlow]

theorem writeText_joined (t : Text) : writeText true t.joined = writeText true t := by
  have hall : t.joined.flatMap (writeOne true) = t.flatMap (writeOne true) := by
    induction t using Text.joined.induct with
    | case1 => rfl
    | case2 c => rfl
    | case3 c d t hpair ih =>
      rw [Text.joined, if_pos hpair]
      rw [Bool.and_eq_true] at hpair
      rw [List.flatMap_cons, List.flatMap_cons, List.flatMap_cons, ih, writeOne_ofPair hpair.1 hpair.2,
        List.append_assoc]
    | case4 c d t hpair ih =>
      rw [Text.joined, if_neg hpair, List.flatMap_cons, ih]
      rfl
  unfold writeText
  rw [hall]

/-- Texts in a list are written as the texts with their pairs made one character. -/
theorem write_joined (ts : List Text) : (list (ts.map text)).write .line =
    (list ((ts.map Text.joined).map text)).write .line := by
  have htext (u rest : Text) : writeAt .line 1 (text u.joined) rest = writeAt .line 1 (text u) rest := by
    rw [writeAt, writeAt, show Style.line.ascii = true from rfl, writeText_joined]
  have hitems (rest : Text) (us : List Text) : writeItems .line 1 ((us.map Text.joined).map text) rest =
      writeItems .line 1 (us.map text) rest := by
    induction us with
    | nil => rfl
    | cons u us ih =>
      rw [List.map_cons, List.map_cons, List.map_cons, writeItems, writeItems, htext, ih]
  have hlist (x : Json) (xs : List Json) : writeAt .line 0 (list (x :: xs)) [] =
      ("[" : Text) ++ (lineBreak .line 1 ++ writeAt .line 1 x
        (writeItems .line 1 xs (lineBreak .line 0 ++ (("]" : Text) ++ [])))) := by rw [writeAt]
  unfold write
  cases ts with
  | nil => rfl
  | cons t ts => rw [List.map_cons, List.map_cons, List.map_cons, hlist, hlist, htext, hitems]

end Json

namespace ProcessedDocument

/-- Whether what is told of a document can be kept in a table: its texts have bytes, its labels have no
paired surrogates, and its time is one of universal time. -/
structure Storable (d : ProcessedDocument) : Prop where
  vocabulary : Utf8.Encodable d.vocabulary
  document : Utf8.Encodable d.document
  fingerprint : Utf8.Encodable d.fingerprint
  labels : ∀ l ∈ d.labels, l.Unpaired
  time : d.classifiedAt.Universal

/-- What a table tells of a document: its labels in increasing order. -/
def told (d : ProcessedDocument) : ProcessedDocument := { d with labels := Text.sorted d.labels }

/-- What a table tells of a document whatever its labels are: a pair of surrogates in them has become the
character that it stands for. -/
def shown (d : ProcessedDocument) : ProcessedDocument :=
  { d with labels := (Text.sorted d.labels).map Text.joined }

theorem shown_eq_told {d : ProcessedDocument} (h : ∀ l ∈ d.labels, l.Unpaired) : d.shown = d.told := by
  have hsame : (Text.sorted d.labels).map Text.joined = (Text.sorted d.labels).map id :=
    List.map_congr_left fun l hl => Text.joined_of_unpaired
      (h l ((List.mergeSort_perm d.labels Text.notAfter).mem_iff.mp hl))
  unfold shown told
  rw [hsame, List.map_id]

/-- The row that is kept of a document. -/
def row (d : ProcessedDocument) : ProcessedRow :=
  Processed.rowOf d.vocabulary d.document d.fingerprint d.labels d.classifiedAt

end ProcessedDocument

namespace Processed

/-- What a row tells of any labels: they stand in increasing order, and a pair of surrogates in them has
become the character that it stands for. -/
theorem labelsOf_rowOf_eq_joined (k document mark : Text) (labels : List Text) (now : Instant) :
    labelsOf (rowOf k document mark labels now) = .ok ((Text.sorted labels).map Text.joined) := by
  have hreadable : Json.Readable Json.Style.line.ascii
      (.list (((Text.sorted labels).map Text.joined).map Json.text)) := by
    refine Json.readableItems_iff.mpr (List.forall_mem_map.mpr (List.forall_mem_map.mpr fun l _ => ?_))
    exact fun _ => Text.unpaired_joined l
  have hnesting : (Json.list (((Text.sorted labels).map Text.joined).map Json.text)).nesting ≤
      Json.maxDepth := by
    have hflat : Json.nestingItems (((Text.sorted labels).map Text.joined).map Json.text) ≤ 0 :=
      Json.nestingItems_le (List.forall_mem_map.mpr fun _ _ => Nat.le_refl 0)
    exact (Nat.succ_le_succ hflat).trans (by decide)
  unfold labelsOf rowOf
  dsimp only
  rw [Json.write_joined, Json.read_write hreadable hnesting]
  show Except.ok ((((Text.sorted labels).map Text.joined).map Json.text).map Json.display) = _
  rw [List.map_map]
  exact congrArg Except.ok (List.map_id _)

/-- The labels of a row are those that were recorded, in increasing order. -/
theorem labelsOf_rowOf_eq_sorted {labels : List Text} (hunpaired : ∀ l ∈ labels, l.Unpaired)
    (k document mark : Text) (now : Instant) :
    labelsOf (rowOf k document mark labels now) = .ok (Text.sorted labels) := by
  have hsame := congrArg ProcessedDocument.labels
    (ProcessedDocument.shown_eq_told (d := ⟨k, document, mark, now, labels⟩) hunpaired)
  rw [labelsOf_rowOf_eq_joined]
  exact congrArg Except.ok hsame

/-- What a row tells of a document whose time is one of universal time. -/
theorem documentOf_row {d : ProcessedDocument} (h : d.classifiedAt.Universal) :
    documentOf d.row = .ok d.shown := by
  have htime : Instant.read d.row.classifiedAt = .ok d.classifiedAt := Instant.read_text h
  have hlabels : labelsOf d.row = .ok d.shown.labels := labelsOf_rowOf_eq_joined ..
  unfold documentOf
  rw [htime, hlabels]
  rfl

end Processed

end TitleClasses
