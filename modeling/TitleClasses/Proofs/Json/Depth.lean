import Mathlib.Tactic.SplitIfs
import TitleClasses.Proofs.Json.Read

/-!
# Reading and depth

The reader has a bound on the depth of values. With more depth left it reads what it reads with less
(`readsDeeper`), so that what was written is read back as it was or not at all (`eq_of_read_write`). And
what it reads with some depth is nested no deeper (`readsWithin`), so that what was written is read back
exactly if it is nested no deeper than the bound (`read_write_iff`). Brackets that go deeper are told to
be too deep (`read_brackets`).
-/

namespace TitleClasses.Json

/-! ### More depth -/

/-- What one round of reading may rely on: what the rounds below it have read, they read with more depth
left. -/
structure ReadsDeeper (n : Nat) : Prop where
  value : ∀ {depth deeper t v r}, depth ≤ deeper → readValue n depth t = .ok (v, r) →
    readValue n deeper t = .ok (v, r)
  items : ∀ {depth deeper done t xs r}, depth ≤ deeper → readItems n depth done t = .ok (xs, r) →
    readItems n deeper done t = .ok (xs, r)
  members : ∀ {depth deeper done t ms r}, depth ≤ deeper → readMembers n depth done t = .ok (ms, r) →
    readMembers n deeper done t = .ok (ms, r)

theorem ReadsDeeper.readsMember {n depth deeper : Nat} {t key r : Text} {v : Json} (ih : ReadsDeeper n)
    (hd : depth ≤ deeper) (h : ReadsMember n depth t key v r) : ReadsMember n deeper t key v r := by
  obtain ⟨hhead, s, u, hq, hcolon, hv⟩ := h
  exact ⟨hhead, s, u, hq, hcolon, ih.value hd hv⟩

theorem ValueRound.deeper {n depth deeper : Nat} {t r : Text} {v : Json} (ih : ReadsDeeper n)
    (hd : depth ≤ deeper) (h : ValueRound n depth t v r) : ValueRound n deeper t v r := by
  cases h with
  | text hq => exact .text hq
  | scalar hquote hbrace hbracket hv => exact .scalar hquote hbrace hbracket hv
  -- Where there is depth left for an object or a list, there is with more of it.
  | emptyObject hskip =>
    obtain ⟨k, rfl⟩ := Nat.exists_eq_add_of_le' (Nat.le_of_add_left_le hd)
    exact .emptyObject hskip
  | object hopen hm =>
    obtain ⟨k, rfl⟩ := Nat.exists_eq_add_of_le' (Nat.le_of_add_left_le hd)
    exact .object hopen (ih.members (Nat.le_of_succ_le_succ hd) hm)
  | emptyList hskip =>
    obtain ⟨k, rfl⟩ := Nat.exists_eq_add_of_le' (Nat.le_of_add_left_le hd)
    exact .emptyList hskip
  | list hopen hi =>
    obtain ⟨k, rfl⟩ := Nat.exists_eq_add_of_le' (Nat.le_of_add_left_le hd)
    exact .list hopen (ih.items (Nat.le_of_succ_le_succ hd) hi)

theorem ItemsRound.deeper {n depth deeper : Nat} {t r : Text} {done xs : List Json} (ih : ReadsDeeper n)
    (hd : depth ≤ deeper) (h : ItemsRound n depth done t xs r) : ItemsRound n deeper done t xs r := by
  cases h with
  | last hv hskip => exact .last (ih.value hd hv) hskip
  | more hv hskip hi => exact .more (ih.value hd hv) hskip (ih.items hd hi)

theorem MembersRound.deeper {n depth deeper : Nat} {t r : Text} {done ms : Members} (ih : ReadsDeeper n)
    (hd : depth ≤ deeper) (h : MembersRound n depth done t ms r) : MembersRound n deeper done t ms r := by
  cases h with
  | last hm hskip => exact .last (ih.readsMember hd hm) hskip
  | more hm hskip hms => exact .more (ih.readsMember hd hm) hskip (ih.members hd hms)

theorem readsDeeper (n : Nat) : ReadsDeeper n := by
  induction n with
  | zero =>
    -- Without rounds nothing is read.
    exact ⟨fun _ h => (nomatch h), fun _ h => (nomatch h), fun _ h => (nomatch h)⟩
  | succ n ih =>
    exact ⟨fun hd h => readValue_succ_iff.mpr ((readValue_succ_iff.mp h).deeper ih hd),
      fun hd h => readItems_succ_iff.mpr ((readItems_succ_iff.mp h).deeper ih hd),
      fun hd h => readMembers_succ_iff.mpr ((readMembers_succ_iff.mp h).deeper ih hd)⟩

/-- What was written is read back as it was or not at all. -/
theorem eq_of_read_write {style : Style} {v w : Json} (hv : Readable style.ascii v)
    (h : read (v.write style) = .ok w) : w = v := by
  obtain ⟨r, hr⟩ := readValue_of_read h
  -- With as much depth as the value needs it is read as it was.
  have hdeep := (readsDeeper _).value (Nat.le_max_left maxDepth (nesting v)) hr
  have hrounds : rounds v ≤ 2 * (v.write style).length + 2 :=
    Nat.le_add_right_of_le (rounds_le v 0 [] hv)
  have hopens : Opens (v.write style) := opens_writeAt hv 0 []
  rw [hopens.skipSpace_eq] at hdeep
  have hback := readValue_writeAt v 0 _ _ [] hv (Nat.le_max_right maxDepth (nesting v)) hrounds
    (by simp [Delimited])
  exact (Prod.mk.inj (Except.ok.inj (hdeep.symm.trans hback))).1

/-! ### No more than there is -/

/-- What one round of reading may rely on: what the rounds below it have read is nested no deeper than
the depth that was left. -/
structure ReadsWithin (n : Nat) : Prop where
  value : ∀ {depth t v r}, readValue n depth t = .ok (v, r) → v.nesting ≤ depth
  items : ∀ {depth done t xs r}, (∀ x ∈ done, x.nesting ≤ depth) →
    readItems n depth done t = .ok (xs, r) → ∀ x ∈ xs, x.nesting ≤ depth
  members : ∀ {depth done t ms r}, (∀ m ∈ done, m.2.nesting ≤ depth) →
    readMembers n depth done t = .ok (ms, r) → ∀ m ∈ ms, m.2.nesting ≤ depth

theorem ReadsWithin.readsMember {n depth : Nat} {t key r : Text} {v : Json} {done : Members}
    (ih : ReadsWithin n) (hdone : ∀ m ∈ done, m.2.nesting ≤ depth)
    (h : ReadsMember n depth t key v r) : ∀ m ∈ done.set key v, m.2.nesting ≤ depth := by
  obtain ⟨-, s, u, -, -, hv⟩ := h
  intro m hm
  rcases mem_set hm with hold | rfl
  · exact hdone m hold
  · exact ih.value hv

theorem ValueRound.within {n depth : Nat} {t r : Text} {v : Json} (ih : ReadsWithin n)
    (h : ValueRound n depth t v r) : v.nesting ≤ depth := by
  cases h with
  | text _ => simp [nesting]
  | emptyObject _ => simp [nesting, nestingMembers]
  | object _ hm =>
    -- An object takes one level, and its members have one less.
    rw [nesting]
    exact Nat.succ_le_succ (nestingMembers_le (ih.members (by simp) hm))
  | emptyList _ => simp [nesting, nestingItems]
  | list _ hi =>
    rw [nesting]
    exact Nat.succ_le_succ (nestingItems_le (ih.items (by simp) hi))
  | scalar _ _ _ hv =>
    rw [(readScalar_ok hv).1.nesting_eq]
    exact Nat.zero_le _

theorem ItemsRound.within {n depth : Nat} {t r : Text} {done xs : List Json} (ih : ReadsWithin n)
    (hdone : ∀ x ∈ done, x.nesting ≤ depth) (h : ItemsRound n depth done t xs r) :
    ∀ x ∈ xs, x.nesting ≤ depth := by
  have hall {v : Json} {u : Text} (hv : readValue n depth t = .ok (v, u)) :
      ∀ x ∈ v :: done, x.nesting ≤ depth := List.forall_mem_cons.mpr ⟨ih.value hv, hdone⟩
  cases h with
  | last hv _ => exact fun x hx => hall hv x (List.mem_reverse.mp hx)
  | more hv _ hi => exact ih.items (hall hv) hi

theorem MembersRound.within {n depth : Nat} {t r : Text} {done ms : Members} (ih : ReadsWithin n)
    (hdone : ∀ m ∈ done, m.2.nesting ≤ depth) (h : MembersRound n depth done t ms r) :
    ∀ m ∈ ms, m.2.nesting ≤ depth := by
  cases h with
  | last hm _ => exact ih.readsMember hdone hm
  | more hm _ hms => exact ih.members (ih.readsMember hdone hm) hms

theorem readsWithin (n : Nat) : ReadsWithin n := by
  induction n with
  | zero =>
    -- Without rounds nothing is read.
    exact ⟨fun h => (nomatch h), fun _ h => (nomatch h), fun _ h => (nomatch h)⟩
  | succ n ih =>
    exact ⟨fun h => (readValue_succ_iff.mp h).within ih,
      fun hdone h => (readItems_succ_iff.mp h).within ih hdone,
      fun hdone h => (readMembers_succ_iff.mp h).within ih hdone⟩

/-- What was read is nested no deeper than the reader goes. -/
theorem nesting_le_of_read {t : Text} {v : Json} (h : read t = .ok v) : v.nesting ≤ maxDepth := by
  obtain ⟨r, hr⟩ := readValue_of_read h
  exact (readsWithin _).value hr

/-- What was written is read back as it was if it is not nested too deeply, and not at all if it is. -/
theorem read_write_iff {style : Style} {v : Json} (hv : Readable style.ascii v) {w : Json} :
    read (v.write style) = .ok w ↔ w = v ∧ v.nesting ≤ maxDepth := by
  constructor
  · intro h
    obtain rfl := eq_of_read_write hv h
    exact ⟨rfl, nesting_le_of_read h⟩
  · rintro ⟨rfl, hd⟩
    exact read_write hv hd

/-! ### Too much depth -/

/-- Brackets that go deeper than there is depth left are too deep. -/
theorem readValue_brackets {n depth k : Nat} (hk : depth < k) (hn : 2 * depth < n) :
    readValue n depth (List.replicate k ('[' : CodePoint)) = .error (.tooDeep .list) := by
  have hquote : ('[' : CodePoint) ≠ ('"' : CodePoint) := by decide
  have hbrace : ('[' : CodePoint) ≠ ('\x7b' : CodePoint) := by decide
  have hclose : ('[' : CodePoint) ≠ (']' : CodePoint) := by decide
  have hspace : isSpace ('[' : CodePoint) = false := by decide
  induction depth generalizing n k with
  | zero =>
    obtain ⟨n, rfl⟩ := Nat.exists_eq_add_of_lt hn
    obtain ⟨k, rfl⟩ := Nat.exists_eq_add_of_lt hk
    rw [List.replicate_succ, readValue.eq_def]
    dsimp only
    rw [if_neg hquote, if_neg hbrace, if_pos rfl]
  | succ depth ih =>
    obtain ⟨n, rfl⟩ : ∃ m, n = m + 2 := ⟨n - 2, by omega⟩
    obtain ⟨k, rfl⟩ : ∃ m, k = m + 2 := ⟨k - 2, by omega⟩
    have hinner := ih (n := n) (k := k + 1) (by omega) (by omega)
    have hitems : readItems (n + 1) depth [] (List.replicate (k + 1) ('[' : CodePoint)) =
        .error (.tooDeep .list) := by
      rw [readItems.eq_def]
      dsimp only
      rw [hinner]
    have hskip : skipSpace (List.replicate (k + 1) ('[' : CodePoint)) =
        ('[' : CodePoint) :: List.replicate k ('[' : CodePoint) := skipSpace_of_ne hspace _
    rw [List.replicate_succ, readValue.eq_def]
    dsimp only
    rw [if_neg hquote, if_neg hbrace, if_pos rfl, hskip]
    dsimp only
    rw [if_neg hclose]
    rw [List.replicate_succ] at hitems
    rw [hitems]

/-- A text of more brackets than the reader goes deep is too deep. -/
theorem read_brackets {k : Nat} (hk : maxDepth < k) :
    read (List.replicate k ('[' : CodePoint)) = .error (.tooDeep .list) := by
  have hspace : isSpace ('[' : CodePoint) = false := by decide
  obtain ⟨k, rfl⟩ : ∃ m, k = m + 1 := ⟨k - 1, by omega⟩
  have hskip : skipSpace (List.replicate (k + 1) ('[' : CodePoint)) =
      List.replicate (k + 1) ('[' : CodePoint) := skipSpace_of_ne hspace _
  have hmark : (List.replicate (k + 1) ('[' : CodePoint)).head? ≠ some 0xfeff := by
    rw [List.replicate_succ, List.head?_cons]
    decide
  have hvalue := readValue_brackets (n := 2 * (List.replicate (k + 1) ('[' : CodePoint)).length + 2) hk
    (by rw [List.length_replicate]; omega)
  have htext : readText (List.replicate (k + 1) ('[' : CodePoint)) = .error (.tooDeep .list) := by
    unfold readText
    rw [if_neg hmark, hskip, hvalue]
  unfold read
  rw [htext]

end TitleClasses.Json
