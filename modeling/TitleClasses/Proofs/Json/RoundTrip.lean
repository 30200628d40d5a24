import TitleClasses.Proofs.Json.Round
import TitleClasses.Proofs.Json.Scalar

/-!
# Written values are read back

`Readable` says of a value what writing and reading need of it: integers have not too many digits, the
keys of an object are distinct, and in ASCII texts are unpaired. Numbers with a point are left out.
`readValue_writeAt` reads a written value, whatever follows it, by induction on the value; `read_write`
is the round trip for a whole text, for values that are not nested deeper than the reader goes.
`write_injective` follows.
-/

namespace TitleClasses.Json

mutual

/-- Whether a value that is written can be read back as it was. -/
def Readable (ascii : Bool) : Json → Prop
  | .null | .bool _ => True
  | .int n => (Text.ofNat n.natAbs).length ≤ maxDigits
  | .float _ => False
  | .text t => ascii = true → t.Unpaired
  | .list xs => ReadableItems ascii xs
  | .object ms => (ms.map Prod.fst).Nodup ∧ ReadableMembers ascii ms

/-- Whether all items of a list can be read back. -/
def ReadableItems (ascii : Bool) : List Json → Prop
  | [] => True
  | x :: xs => Readable ascii x ∧ ReadableItems ascii xs

/-- Whether all members of an object can be read back. -/
def ReadableMembers (ascii : Bool) : List (Text × Json) → Prop
  | [] => True
  | (k, v) :: ms => (ascii = true → k.Unpaired) ∧ Readable ascii v ∧ ReadableMembers ascii ms

end

mutual

/-- How deep lists and objects stand in one another. -/
def nesting : Json → Nat
  | .null | .bool _ | .int _ | .float _ | .text _ => 0
  | .list xs => nestingItems xs + 1
  | .object ms => nestingMembers ms + 1

/-- How deep lists and objects stand in one another in the items of a list. -/
def nestingItems : List Json → Nat
  | [] => 0
  | x :: xs => max (nesting x) (nestingItems xs)

/-- How deep lists and objects stand in one another in the members of an object. -/
def nestingMembers : List (Text × Json) → Nat
  | [] => 0
  | (_, v) :: ms => max (nesting v) (nestingMembers ms)

end

theorem readableItems_iff {ascii : Bool} {xs : List Json} :
    ReadableItems ascii xs ↔ ∀ x ∈ xs, Readable ascii x := by
  induction xs with
  | nil => simp [ReadableItems]
  | cons x xs ih => rw [ReadableItems, ih, List.forall_mem_cons]

theorem readableMembers_iff {ascii : Bool} {ms : Members} :
    ReadableMembers ascii ms ↔ ∀ m ∈ ms, (ascii = true → m.1.Unpaired) ∧ Readable ascii m.2 := by
  induction ms with
  | nil => simp [ReadableMembers]
  | cons m ms ih => rw [ReadableMembers, ih, List.forall_mem_cons, and_assoc]

theorem nestingItems_le {n : Nat} {xs : List Json} (h : ∀ x ∈ xs, nesting x ≤ n) :
    nestingItems xs ≤ n := by
  induction xs with
  | nil => exact Nat.zero_le n
  | cons x xs ih =>
    obtain ⟨hx, hxs⟩ := List.forall_mem_cons.mp h
    exact Nat.max_le.mpr ⟨hx, ih hxs⟩

theorem nestingMembers_le {n : Nat} {ms : Members} (h : ∀ m ∈ ms, nesting m.2 ≤ n) :
    nestingMembers ms ≤ n := by
  induction ms with
  | nil => exact Nat.zero_le n
  | cons m ms ih =>
    obtain ⟨hm, hms⟩ := List.forall_mem_cons.mp h
    exact Nat.max_le.mpr ⟨hm, ih hms⟩

mutual

/-- How many rounds reading a value takes at most. -/
def rounds : Json → Nat
  | .null | .bool _ | .int _ | .float _ | .text _ => 1
  | .list xs => roundsItems xs + 1
  | .object ms => roundsMembers ms + 1

/-- How many rounds reading the items of a list takes at most. -/
def roundsItems : List Json → Nat
  | [] => 0
  | x :: xs => rounds x + roundsItems xs + 1

/-- How many rounds reading the members of an object takes at most. -/
def roundsMembers : List (Text × Json) → Nat
  | [] => 0
  | (_, v) :: ms => rounds v + roundsMembers ms + 1

end

/-! ### White space -/

theorem skipSpace_of_ne {c : CodePoint} (h : isSpace c = false) (r : Text) :
    skipSpace (c :: r) = c :: r := by
  unfold skipSpace
  rw [List.dropWhile_cons_of_neg (by simp [h])]

theorem skipSpace_append {gap : Text} (h : ∀ c ∈ gap, isSpace c = true) (t : Text) :
    skipSpace (gap ++ t) = skipSpace t := List.dropWhile_append_of_pos h

/-- Before an item stands white space, or nothing. -/
theorem isSpace_lineBreak (style : Style) (level : Nat) :
    ∀ c ∈ lineBreak style level, isSpace c = true := by
  intro c hc
  unfold lineBreak at hc
  cases hi : style.indent with
  | none => simp [hi] at hc
  | some n =>
    simp only [hi] at hc
    rcases List.mem_cons.mp hc with rfl | hc
    · decide
    · rw [List.eq_of_mem_replicate hc]
      decide

/-- Between two items stands a comma, and after it white space. -/
theorem separator_eq (style : Style) (level : Nat) :
    ∃ gap, separator style level = (',' : CodePoint) :: gap ∧ ∀ c ∈ gap, isSpace c = true := by
  unfold separator
  split_ifs with h
  · exact ⟨[(' ' : CodePoint)], rfl, List.forall_mem_singleton.mpr (by decide)⟩
  · exact ⟨lineBreak style level, rfl, isSpace_lineBreak style level⟩

/-- What closes a list or an object stands after white space and delimits what is before it. -/
theorem delimited_close {close : CodePoint} (style : Style) (level : Nat) (rest : Text)
    (hc : close = (']' : Char) ∨ close = ('\x7d' : Char)) :
    Delimited (lineBreak style level ++ close :: rest) := by
  intro c h
  unfold lineBreak at h
  cases hi : style.indent with
  | none =>
    simp only [hi, List.nil_append, List.head?_cons, Option.some.injEq] at h
    subst h
    rcases hc with rfl | rfl
    · exact Or.inr (Or.inl rfl)
    · exact Or.inr (Or.inr (Or.inl rfl))
  | some n =>
    simp only [hi, List.cons_append, List.head?_cons, Option.some.injEq] at h
    exact Or.inr (Or.inr (Or.inr h.symm))

theorem delimited_separator (style : Style) (level : Nat) (rest : Text) :
    Delimited (separator style level ++ rest) := by
  obtain ⟨gap, hgap, -⟩ := separator_eq style level
  intro c h
  rw [hgap, List.cons_append, List.head?_cons, Option.some.injEq] at h
  exact Or.inl h.symm

/-! ### What stands at the front -/

theorem ne_of_isDigit {c d : CodePoint} (hc : isDigit c = true) (hd : isDigit d = false) : c ≠ d := by
  rintro rfl
  rw [hc] at hd
  cases hd

/-- The front of a written value: no white space, and nothing that closes a list or an object. -/
def Opens (t : Text) : Prop :=
  ∃ c r, t = c :: r ∧ isSpace c = false ∧ c ≠ (']' : Char) ∧ c ≠ ('\x7d' : Char) ∧ c.val ≠ 0xfeff

theorem Opens.skipSpace_eq {t : Text} (h : Opens t) : skipSpace t = t := by
  obtain ⟨c, r, rfl, hs, -⟩ := h
  exact skipSpace_of_ne hs r

/-- White space before the front of a written value is skipped, and nothing else. -/
theorem Opens.skipSpace_append {gap t : Text} (h : Opens t) (hgap : ∀ c ∈ gap, isSpace c = true) :
    skipSpace (gap ++ t) = t := by
  rw [Json.skipSpace_append hgap, h.skipSpace_eq]

theorem Opens.head?_ne {t : Text} (h : Opens t) :
    t.head? ≠ some (']' : CodePoint) ∧ t.head? ≠ some ('\x7d' : CodePoint) := by
  obtain ⟨c, r, rfl, -, hbracket, hbrace, -⟩ := h
  exact ⟨fun heq => hbracket (Option.some.inj heq), fun heq => hbrace (Option.some.inj heq)⟩

theorem opens_ofInt (n : Int) (rest : Text) : Opens (Text.ofInt n ++ rest) := by
  cases n with
  | ofNat m =>
    obtain ⟨hall, -, c, r, hcr, -⟩ := ofNat_digits m
    have hc : isDigit c = true := hall c (by rw [hcr]; exact List.mem_cons_self)
    refine ⟨c, r ++ rest, by show Text.ofNat m ++ rest = _; rw [hcr]; rfl, ?_⟩
    have hrange : 0x30 ≤ c.val ∧ c.val ≤ 0x39 := by
      simpa [isDigit] using hc
    have hne {d : CodePoint} (hd : isDigit d = false) : c ≠ d := ne_of_isDigit hc hd
    refine ⟨?_, hne (by decide), hne (by decide), by omega⟩
    simp [isSpace, hne (show isDigit (' ' : Char) = false by decide),
      hne (show isDigit ('\t' : Char) = false by decide),
      hne (show isDigit ('\n' : Char) = false by decide),
      hne (show isDigit ('\r' : Char) = false by decide)]
  | negSucc m => exact ⟨('-' : Char), Text.ofNat (m + 1) ++ rest, rfl, by decide⟩

/-- A written value begins with the value. -/
theorem opens_writeAt {style : Style} {v : Json} (hv : Readable style.ascii v) (level : Nat)
    (rest : Text) : Opens (writeAt style level v rest) := by
  cases v with
  | null => exact ⟨('n' : Char), _, rfl, by decide⟩
  | bool b =>
    cases b with
    | false => exact ⟨('f' : Char), _, rfl, by decide⟩
    | true => exact ⟨('t' : Char), _, rfl, by decide⟩
  | int n =>
    rw [writeAt]
    exact opens_ofInt n rest
  | float x => exact hv.elim
  | text t => exact ⟨('"' : Char), _, rfl, by decide⟩
  | list xs => cases xs <;> exact ⟨('[' : Char), _, rfl, by decide⟩
  | object ms => cases ms <;> exact ⟨('\x7b' : Char), _, rfl, by decide⟩

theorem opens_writeMember (style : Style) (level : Nat) (m : Text × Json) (rest : Text) :
    Opens (writeMember style level m rest) := by
  obtain ⟨k, v⟩ := m
  rw [writeMember]
  exact ⟨('"' : Char), _, rfl, by decide⟩

/-! ### Reading -/

theorem readScalar_ofInt {n : Int} (hn : (Text.ofNat n.natAbs).length ≤ maxDigits) {rest : Text}
    (h : Delimited rest) : readScalar (Text.ofInt n ++ rest) = .ok (.int n, rest) := by
  have hnone : (wordValues.find? fun w => w.1.isPrefixOf (Text.ofInt n ++ rest)) = none := by
    rw [List.find?_eq_none]
    -- No word begins with a digit, or with a minus sign and a digit.
    obtain ⟨hall, -, c, r, hcr, -⟩ := ofNat_digits n.natAbs
    have hc : isDigit c = true := hall c (by rw [hcr]; exact List.mem_cons_self)
    have hne (d : CodePoint) (hd : isDigit d = false) : (d == c) = false :=
      beq_eq_false_iff_ne.mpr (ne_of_isDigit hc hd).symm
    cases n with
    | ofNat m =>
      have htext : Text.ofInt (Int.ofNat m) = c :: r := hcr
      rw [htext]
      intro w hw
      simp only [wordValues, List.mem_cons, List.not_mem_nil, or_false] at hw
      have hfirst (d : CodePoint) (u : Text) (hd : isDigit d = false) :
          List.isPrefixOf (d :: u) (c :: r ++ rest) = false := by
        rw [List.cons_append, List.isPrefixOf, hne d hd, Bool.false_and]
      rcases hw with rfl | rfl | rfl | rfl | rfl | rfl <;> rw [Bool.not_eq_true] <;>
        exact hfirst _ _ (by decide)
    | negSucc m =>
      have htext : Text.ofInt (Int.negSucc m) = ('-' : CodePoint) :: c :: r :=
        congrArg (('-' : CodePoint) :: ·) hcr
      rw [htext]
      intro w hw
      simp only [wordValues, List.mem_cons, List.not_mem_nil, or_false] at hw
      have hfirst (d : CodePoint) (u : Text) (hd : d ≠ ('-' : Char)) :
          List.isPrefixOf (d :: u) (('-' : CodePoint) :: c :: r ++ rest) = false := by
        rw [List.cons_append, List.isPrefixOf, beq_eq_false_iff_ne.mpr hd, Bool.false_and]
      have hsecond (d e : CodePoint) (u : Text) (he : isDigit e = false) :
          List.isPrefixOf (d :: e :: u) (('-' : CodePoint) :: c :: r ++ rest) = false := by
        rw [List.cons_append, List.cons_append, List.isPrefixOf, List.isPrefixOf, hne e he,
          Bool.false_and, Bool.and_false]
      rcases hw with rfl | rfl | rfl | rfl | rfl | rfl <;> rw [Bool.not_eq_true]
      · exact hfirst _ _ (by decide)
      · exact hfirst _ _ (by decide)
      · exact hfirst _ _ (by decide)
      · exact hfirst _ _ (by decide)
      · exact hfirst _ _ (by decide)
      · exact hsecond _ _ _ (by decide)
  unfold readScalar
  rw [hnone]
  simp only
  rw [readNumeral_ofInt n h]
  simp only
  rw [value_ofInt hn]

theorem readValue_ofInt (n depth : Nat) {i : Int} (hi : (Text.ofNat i.natAbs).length ≤ maxDigits)
    {rest : Text} (h : Delimited rest) :
    readValue (n + 1) depth (Text.ofInt i ++ rest) = .ok (.int i, rest) := by
  have hread := readScalar_ofInt hi h
  obtain ⟨hall, -, c, r, hcr, -⟩ := ofNat_digits i.natAbs
  have hc : isDigit c = true := hall c (by rw [hcr]; exact List.mem_cons_self)
  cases i with
  | ofNat m =>
    have htext : Text.ofInt (Int.ofNat m) = c :: r := hcr
    rw [htext, List.cons_append] at hread ⊢
    exact (ValueRound.scalar (ne_of_isDigit hc (by decide)) (ne_of_isDigit hc (by decide))
      (ne_of_isDigit hc (by decide)) hread).readValue_eq
  | negSucc m =>
    have htext : Text.ofInt (Int.negSucc m) = ('-' : CodePoint) :: Text.ofNat (m + 1) := rfl
    rw [htext, List.cons_append] at hread ⊢
    exact (ValueRound.scalar (by decide) (by decide) (by decide) hread).readValue_eq

/-- Reading goes into a list that is not empty. -/
theorem readValue_list {n depth : Nat} {gap t r : Text} {xs : List Json}
    (hgap : ∀ c ∈ gap, isSpace c = true) (ht : Opens t) (hi : readItems n depth [] t = .ok (xs, r)) :
    readValue (n + 1) (depth + 1) (('[' : CodePoint) :: (gap ++ t)) = .ok (.list xs, r) := by
  have hskip := ht.skipSpace_append hgap
  exact (ValueRound.list (hskip.symm ▸ ht.head?_ne.1) (hskip.symm ▸ hi)).readValue_eq

/-- Reading goes into an object that is not empty. -/
theorem readValue_object {n depth : Nat} {gap t r : Text} {ms : Members}
    (hgap : ∀ c ∈ gap, isSpace c = true) (ht : Opens t)
    (hm : readMembers n depth [] t = .ok (ms, r)) :
    readValue (n + 1) (depth + 1) (('\x7b' : CodePoint) :: (gap ++ t)) = .ok (.object ms, r) := by
  have hskip := ht.skipSpace_append hgap
  exact (ValueRound.object (hskip.symm ▸ ht.head?_ne.2) (hskip.symm ▸ hm)).readValue_eq

/-- A written member is read as its key and its value. -/
theorem readsMember_writeText {ascii : Bool} {n depth : Nat} {k t r : Text} {v : Json}
    (hk : ascii = true → k.Unpaired) (ht : Opens t) (h : readValue n depth t = .ok (v, r)) :
    ReadsMember n depth (writeText ascii k ++ (": " ++ t)) k v r := by
  have hspace : ∀ c ∈ [(' ' : CodePoint)], isSpace c = true :=
    List.forall_mem_singleton.mpr (by decide)
  have hcolon : (": " ++ t : Text) = (':' : CodePoint) :: ([(' ' : CodePoint)] ++ t) := rfl
  refine ⟨rfl, ": " ++ t, [(' ' : CodePoint)] ++ t, readQuoted_writeText hk _, ?_, ?_⟩
  · rw [hcolon, skipSpace_of_ne (by decide)]
  · rw [ht.skipSpace_append hspace, h]

/-- A member whose key is new comes after the others. -/
theorem set_of_not_mem {ms : Members} {k : Text} (h : k ∉ ms.map Prod.fst) (v : Json) :
    ms.set k v = ms ++ [(k, v)] := by
  induction ms with
  | nil => rfl
  | cons m ms ih =>
    obtain ⟨l, w⟩ := m
    rw [List.map_cons, List.mem_cons, not_or] at h
    rw [Members.set, if_neg (Ne.symm h.1), ih h.2]
    rfl

mutual

/-- A written value is read as the value, whatever follows it. -/
theorem readValue_writeAt {style : Style} : ∀ (v : Json) (level n depth : Nat) (rest : Text),
    Readable style.ascii v → nesting v ≤ depth → rounds v ≤ n → Delimited rest →
    readValue n depth (writeAt style level v rest) = .ok (v, rest)
  | .float x, _, _, _, _, hv, _, _, _ => hv.elim
  | .null, level, n, depth, rest, _, _, hn, _ => by
    obtain ⟨k, rfl⟩ := Nat.exists_eq_add_of_le' hn
    rfl
  | .bool b, level, n, depth, rest, _, _, hn, _ => by
    obtain ⟨k, rfl⟩ := Nat.exists_eq_add_of_le' hn
    cases b <;> rfl
  | .int i, level, n, depth, rest, hv, _, hn, hr => by
    obtain ⟨k, rfl⟩ := Nat.exists_eq_add_of_le' hn
    rw [writeAt]
    exact readValue_ofInt k depth hv hr
  | .text t, level, n, depth, rest, hv, _, hn, _ => by
    obtain ⟨k, rfl⟩ := Nat.exists_eq_add_of_le' hn
    rw [writeAt]
    exact (ValueRound.text (readQuoted_writeText hv rest)).readValue_eq
  | .list [], level, n, depth, rest, _, hd, hn, _ => by
    obtain ⟨k, rfl⟩ := Nat.exists_eq_add_of_le' hn
    obtain ⟨d, rfl⟩ := Nat.exists_eq_add_of_le' hd
    rfl
  | .list (x :: xs), level, n, depth, rest, hv, hd, hn, _ => by
    rw [rounds] at hn
    rw [nesting] at hd
    obtain ⟨k, rfl⟩ := Nat.exists_eq_add_of_le' (Nat.le_of_add_left_le hn)
    obtain ⟨d, rfl⟩ := Nat.exists_eq_add_of_le' (Nat.le_of_add_left_le hd)
    -- One round and one level less are left for the items.
    have hitems := readItems_writeItems x xs (level + 1) level k d [] rest hv
      (Nat.le_of_succ_le_succ hd) (Nat.le_of_succ_le_succ hn)
    rw [writeAt]
    show readValue (k + 1) (d + 1) (('[' : CodePoint) :: (lineBreak style (level + 1) ++ _)) = _
    exact readValue_list (isSpace_lineBreak style _) (opens_writeAt hv.1 _ _) hitems
  | .object [], level, n, depth, rest, _, hd, hn, _ => by
    obtain ⟨k, rfl⟩ := Nat.exists_eq_add_of_le' hn
    obtain ⟨d, rfl⟩ := Nat.exists_eq_add_of_le' hd
    rfl
  | .object (m :: ms), level, n, depth, rest, hv, hd, hn, _ => by
    rw [rounds] at hn
    rw [nesting] at hd
    obtain ⟨k, rfl⟩ := Nat.exists_eq_add_of_le' (Nat.le_of_add_left_le hn)
    obtain ⟨d, rfl⟩ := Nat.exists_eq_add_of_le' (Nat.le_of_add_left_le hd)
    have hmembers := readMembers_writeMembers m ms (level + 1) level k d [] rest hv.2 hv.1
      (Nat.le_of_succ_le_succ hd) (Nat.le_of_succ_le_succ hn)
    rw [writeAt]
    show readValue (k + 1) (d + 1) (('\x7b' : CodePoint) :: (lineBreak style (level + 1) ++ _)) = _
    exact readValue_object (isSpace_lineBreak style _) (opens_writeMember style _ m _) hmembers
termination_by v => sizeOf v

/-- Written items are read as the items. -/
theorem readItems_writeItems {style : Style} : ∀ (x : Json) (xs : List Json) (level outer n depth : Nat)
    (done : List Json) (rest : Text), ReadableItems style.ascii (x :: xs) →
    nestingItems (x :: xs) ≤ depth → roundsItems (x :: xs) ≤ n →
    readItems n depth done (writeAt style level x
      (writeItems style level xs (lineBreak style outer ++ (']' : CodePoint) :: rest))) =
        .ok (done.reverse ++ x :: xs, rest)
  | x, xs, level, outer, n, depth, done, rest, hv, hd, hn => by
    rw [roundsItems] at hn
    rw [nestingItems] at hd
    obtain ⟨k, rfl⟩ := Nat.exists_eq_add_of_le' (Nat.le_of_add_left_le hn)
    have hx (t : Text) (ht : Delimited t) :
        readValue k depth (writeAt style level x t) = .ok (x, t) :=
      readValue_writeAt x level k depth t hv.1 (by omega) (by omega) ht
    cases xs with
    | nil =>
      have hclose : skipSpace (lineBreak style outer ++ (']' : CodePoint) :: rest) =
          (']' : CodePoint) :: rest := by
        rw [skipSpace_append (isSpace_lineBreak style outer), skipSpace_of_ne (by decide)]
      rw [writeItems, ← List.reverse_cons]
      exact readItems_succ_iff.mpr (.last (hx _ (delimited_close style outer rest (Or.inl rfl))) hclose)
    | cons y ys =>
      -- A comma, and white space that is skipped before the next item.
      obtain ⟨gap, hgap, hspace⟩ := separator_eq style level
      have hitems := readItems_writeItems y ys level outer k depth (x :: done) rest hv.2 (by omega)
        (by omega)
      rw [List.reverse_cons, List.append_assoc, List.singleton_append,
        ← (opens_writeAt hv.2.1 _ _).skipSpace_append hspace] at hitems
      rw [writeItems]
      refine readItems_succ_iff.mpr (.more (hx _ (delimited_separator style level _)) ?_ hitems)
      rw [hgap, List.cons_append, skipSpace_of_ne (by decide)]
termination_by x xs => sizeOf (x :: xs)

/-- Written members are read as the members. -/
theorem readMembers_writeMembers {style : Style} : ∀ (m : Text × Json) (ms : Members)
    (level outer n depth : Nat) (done : Members) (rest : Text),
    ReadableMembers style.ascii (m :: ms) → ((done ++ m :: ms).map Prod.fst).Nodup →
    nestingMembers (m :: ms) ≤ depth → roundsMembers (m :: ms) ≤ n →
    readMembers n depth done (writeMember style level m
      (writeMembers style level ms (lineBreak style outer ++ ('\x7d' : CodePoint) :: rest))) =
        .ok (done ++ m :: ms, rest)
  | (key, v), ms, level, outer, n, depth, done, rest, hv, hk, hd, hn => by
    rw [roundsMembers] at hn
    rw [nestingMembers] at hd
    obtain ⟨k, rfl⟩ := Nat.exists_eq_add_of_le' (Nat.le_of_add_left_le hn)
    have hx (t : Text) (ht : Delimited t) :
        readValue k depth (writeAt style level v t) = .ok (v, t) :=
      readValue_writeAt v level k depth t hv.2.1 (by omega) (by omega) ht
    -- The key is not among those before it.
    have hnew : key ∉ done.map Prod.fst := by
      rw [List.map_append, List.nodup_append] at hk
      exact fun hmem => hk.2.2 key hmem key (by simp) rfl
    have hset := set_of_not_mem hnew v
    have hmember (t : Text) (ht : Delimited t) :
        ReadsMember k depth (writeMember style level (key, v) t) key v t :=
      readsMember_writeText hv.1 (opens_writeAt hv.2.1 _ _) (hx t ht)
    cases ms with
    | nil =>
      have hclose : skipSpace (lineBreak style outer ++ ('\x7d' : CodePoint) :: rest) =
          ('\x7d' : CodePoint) :: rest := by
        rw [skipSpace_append (isSpace_lineBreak style outer), skipSpace_of_ne (by decide)]
      rw [writeMembers, ← hset]
      exact readMembers_succ_iff.mpr
        (.last (hmember _ (delimited_close style outer rest (Or.inr rfl))) hclose)
    | cons m' ms =>
      obtain ⟨gap, hgap, hspace⟩ := separator_eq style level
      have hmembers := readMembers_writeMembers m' ms level outer k depth (done ++ [(key, v)]) rest
        hv.2.2 (by rw [List.append_assoc]; exact hk) (by omega) (by omega)
      rw [List.append_assoc, List.singleton_append, ← hset,
        ← (opens_writeMember style level m' _).skipSpace_append hspace] at hmembers
      rw [writeMembers]
      refine readMembers_succ_iff.mpr (.more (hmember _ (delimited_separator style level _)) ?_ hmembers)
      rw [hgap, List.cons_append, skipSpace_of_ne (by decide)]
termination_by m ms => sizeOf (m :: ms)

end

/-! ### The length of what is written -/

theorem length_writeText_pos (ascii : Bool) (t : Text) : 2 ≤ (writeText ascii t).length := by
  show 2 ≤ (('"' : CodePoint) :: t.flatMap (writeOne ascii) ++ [('"' : CodePoint)]).length
  simp

mutual

/-- Reading takes at most two rounds for each character of a value. -/
theorem rounds_le {style : Style} : ∀ (v : Json) (level : Nat) (rest : Text),
    Readable style.ascii v →
    rounds v + 2 * rest.length ≤ 2 * (writeAt style level v rest).length
  | .float x, _, _, hv => hv.elim
  | .null, level, rest, _ => by
    show 1 + 2 * rest.length ≤ 2 * (("null" : Text) ++ rest).length
    rw [List.length_append]
    have : ("null" : Text).length = 4 := rfl
    omega
  | .bool b, level, rest, _ => by
    have hb : 4 ≤ ((if b then "true" else "false" : Text)).length := by cases b <;> decide
    show 1 + 2 * rest.length ≤ 2 * ((if b then "true" else "false" : Text) ++ rest).length
    rw [List.length_append]
    omega
  | .int i, level, rest, _ => by
    obtain ⟨c, r, hcr, -⟩ := opens_ofInt i rest
    -- A numeral has a digit at least.
    have hlen : 1 ≤ (Text.ofInt i).length := by
      cases i with
      | ofNat m =>
        obtain ⟨-, -, d, u, hdu, -⟩ := ofNat_digits m
        show 1 ≤ (Text.ofNat m).length
        rw [hdu]
        exact Nat.le_add_left 1 _
      | negSucc m => exact Nat.le_add_left 1 _
    rw [writeAt, rounds, List.length_append]
    omega
  | .text t, level, rest, _ => by
    have := length_writeText_pos style.ascii t
    rw [writeAt, rounds, List.length_append]
    omega
  | .list [], level, rest, _ => by
    show 1 + 2 * rest.length ≤ 2 * (("[]" : Text) ++ rest).length
    rw [List.length_append]
    have : ("[]" : Text).length = 2 := rfl
    omega
  | .list (x :: xs), level, rest, hv => by
    have hx := rounds_le x (level + 1) (writeItems style (level + 1) xs
      (lineBreak style level ++ ("]" ++ rest))) hv.1
    have hxs := roundsItems_le xs (level + 1) (lineBreak style level ++ ("]" ++ rest)) hv.2
    have hopen : ("[" : Text).length = 1 := rfl
    have hclose : ("]" : Text).length = 1 := rfl
    rw [writeAt, rounds, roundsItems]
    simp only [List.length_append, hopen, hclose] at hx hxs ⊢
    omega
  | .object [], level, rest, _ => by
    show 1 + 2 * rest.length ≤ 2 * (("\x7b\x7d" : Text) ++ rest).length
    rw [List.length_append]
    have : ("\x7b\x7d" : Text).length = 2 := rfl
    omega
  | .object ((k, v) :: ms), level, rest, hv => by
    have hx := rounds_le v (level + 1) (writeMembers style (level + 1) ms
      (lineBreak style level ++ ("\x7d" ++ rest))) hv.2.2.1
    have hxs := roundsMembers_le ms (level + 1) (lineBreak style level ++ ("\x7d" ++ rest)) hv.2.2.2
    have hopen : ("\x7b" : Text).length = 1 := rfl
    have hclose : ("\x7d" : Text).length = 1 := rfl
    rw [writeAt, writeMember, rounds, roundsMembers]
    simp only [List.length_append, hopen, hclose] at hx hxs ⊢
    omega

theorem roundsItems_le {style : Style} : ∀ (xs : List Json) (level : Nat) (rest : Text),
    ReadableItems style.ascii xs →
    roundsItems xs + 2 * rest.length ≤ 2 * (writeItems style level xs rest).length
  | [], level, rest, _ => by
    rw [writeItems, roundsItems]
    omega
  | x :: xs, level, rest, hv => by
    have hx := rounds_le x level (writeItems style level xs rest) hv.1
    have hxs := roundsItems_le xs level rest hv.2
    obtain ⟨gap, hgap, -⟩ := separator_eq style level
    rw [writeItems, roundsItems, hgap, List.cons_append, List.length_cons, List.length_append]
    omega

theorem roundsMembers_le {style : Style} : ∀ (ms : Members) (level : Nat) (rest : Text),
    ReadableMembers style.ascii ms →
    roundsMembers ms + 2 * rest.length ≤ 2 * (writeMembers style level ms rest).length
  | [], level, rest, _ => by
    rw [writeMembers, roundsMembers]
    omega
  | (k, v) :: ms, level, rest, hv => by
    have hx := rounds_le v level (writeMembers style level ms rest) hv.2.1
    have hxs := roundsMembers_le ms level rest hv.2.2
    obtain ⟨gap, hgap, -⟩ := separator_eq style level
    rw [writeMembers, writeMember, roundsMembers, hgap]
    simp only [List.cons_append, List.length_cons, List.length_append]
    omega

end

/-- What is written is read back as it was, unless it is nested too deep. -/
theorem read_write {style : Style} {v : Json} (hv : Readable style.ascii v)
    (hd : nesting v ≤ maxDepth) : read (v.write style) = .ok v := by
  have hopens : Opens (v.write style) := opens_writeAt hv 0 []
  have hbom : (v.write style).head? ≠ some 0xfeff := by
    obtain ⟨c, r, hcr, -, -, -, hne⟩ := hopens
    rw [hcr]
    exact fun heq => hne (congrArg Fin.val (Option.some.inj heq))
  -- The rounds that reading starts with are enough for what was written.
  have hrounds : rounds v ≤ 2 * (v.write style).length + 2 := by
    have := rounds_le v 0 [] hv
    exact Nat.le_add_right_of_le this
  have hvalue : readValue (2 * (v.write style).length + 2) maxDepth (skipSpace (v.write style)) =
      .ok (v, []) := by
    rw [hopens.skipSpace_eq]
    exact readValue_writeAt v 0 _ _ [] hv hd hrounds (by simp [Delimited])
  have htext : readText (v.write style) = .ok v := by
    rw [readText, if_neg hbom, hvalue]
    rfl
  rw [read, htext]

/-- What is written tells the value. -/
theorem write_injective {style : Style} {v w : Json} (hv : Readable style.ascii v)
    (hw : Readable style.ascii w) (hd : nesting v ≤ maxDepth) (hd' : nesting w ≤ maxDepth)
    (h : v.write style = w.write style) : v = w := by
  have hread := read_write hv hd
  rw [h, read_write hw hd'] at hread
  exact (Except.ok.inj hread).symm

end TitleClasses.Json
