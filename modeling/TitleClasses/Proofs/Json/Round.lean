import Mathlib.Tactic.SplitIfs
import TitleClasses.Json.Reader

/-!
# One round of reading

Values, items and members are read in rounds, each of which goes by the rounds below it. `ValueRound`,
`ItemsRound` and `MembersRound` are the rules by which one round reads: one constructor for each way in
which it yields something. A round yields what the rules say and nothing else (`readValue_succ_iff`,
`readItems_succ_iff`, `readMembers_succ_iff`), so that a property of all that is read is shown for each
rule, and then by induction on the rounds.
-/

namespace TitleClasses.Json

/-- How one round reads the value at the front of a text, with `n` rounds below it: a string, an object
or a list if there is depth left for it, or else a word or a numeral. -/
inductive ValueRound (n : Nat) : Nat → Text → Json → Text → Prop where
  | text {depth : Nat} {t s r : Text} (hq : readQuoted (('"' : CodePoint) :: t) = .ok (s, r)) :
      ValueRound n depth (('"' : CodePoint) :: t) (.text s) r
  | emptyObject {depth : Nat} {t r : Text} (hskip : skipSpace t = ('\x7d' : CodePoint) :: r) :
      ValueRound n (depth + 1) (('\x7b' : CodePoint) :: t) (.object []) r
  | object {depth : Nat} {t r : Text} {ms : Members}
      (hopen : (skipSpace t).head? ≠ some ('\x7d' : CodePoint))
      (hm : readMembers n depth [] (skipSpace t) = .ok (ms, r)) :
      ValueRound n (depth + 1) (('\x7b' : CodePoint) :: t) (.object ms) r
  | emptyList {depth : Nat} {t r : Text} (hskip : skipSpace t = (']' : CodePoint) :: r) :
      ValueRound n (depth + 1) (('[' : CodePoint) :: t) (.list []) r
  | list {depth : Nat} {t r : Text} {xs : List Json}
      (hopen : (skipSpace t).head? ≠ some (']' : CodePoint))
      (hi : readItems n depth [] (skipSpace t) = .ok (xs, r)) :
      ValueRound n (depth + 1) (('[' : CodePoint) :: t) (.list xs) r
  | scalar {depth : Nat} {c : CodePoint} {t r : Text} {v : Json} (hquote : c ≠ ('"' : CodePoint))
      (hbrace : c ≠ ('\x7b' : CodePoint)) (hbracket : c ≠ ('[' : CodePoint))
      (hv : readScalar (c :: t) = .ok (v, r)) : ValueRound n depth (c :: t) v r

/-- How one round reads the items of a list from one item on: a bracket ends them, after a comma there
are more. -/
inductive ItemsRound (n depth : Nat) (done : List Json) (t : Text) : List Json → Text → Prop where
  | last {v : Json} {u r : Text} (hv : readValue n depth t = .ok (v, u))
      (hskip : skipSpace u = (']' : CodePoint) :: r) : ItemsRound n depth done t (v :: done).reverse r
  | more {v : Json} {u s r : Text} {xs : List Json} (hv : readValue n depth t = .ok (v, u))
      (hskip : skipSpace u = (',' : CodePoint) :: s)
      (hi : readItems n depth (v :: done) (skipSpace s) = .ok (xs, r)) : ItemsRound n depth done t xs r

/-- Whether a key, a colon and a value stand at the front of a text. -/
def ReadsMember (n depth : Nat) (t key : Text) (v : Json) (r : Text) : Prop :=
  t.head? = some ('"' : CodePoint) ∧ ∃ s u, readQuoted t = .ok (key, s) ∧
    skipSpace s = (':' : CodePoint) :: u ∧ readValue n depth (skipSpace u) = .ok (v, r)

/-- How one round reads the members of an object from one member on: a brace ends them, after a comma
there are more. -/
inductive MembersRound (n depth : Nat) (done : Members) (t : Text) : Members → Text → Prop where
  | last {key u r : Text} {v : Json} (hm : ReadsMember n depth t key v u)
      (hskip : skipSpace u = ('\x7d' : CodePoint) :: r) :
      MembersRound n depth done t (done.set key v) r
  | more {key u s r : Text} {v : Json} {ms : Members} (hm : ReadsMember n depth t key v u)
      (hskip : skipSpace u = (',' : CodePoint) :: s)
      (hms : readMembers n depth (done.set key v) (skipSpace s) = .ok (ms, r)) :
      MembersRound n depth done t ms r

variable {n depth : Nat} {t r : Text}

/-- Nothing is read from nothing. -/
theorem readItems_nil_ne {done xs : List Json} : readItems n depth done [] ≠ .ok (xs, r) := by
  have hvalue (k : Nat) : readValue k depth [] = .error (.at .value []) := by cases k <;> rfl
  intro h
  rw [readItems.eq_def] at h
  cases n with
  | zero => cases h
  | succ n => simp [hvalue] at h

theorem readMembers_nil_ne {done ms : Members} : readMembers n depth done [] ≠ .ok (ms, r) := by
  intro h
  cases n <;> cases h

/-- What one round reads, it reads by one of the rules. -/
theorem valueRound_of_readValue {v : Json} (h : readValue (n + 1) depth t = .ok (v, r)) :
    ValueRound n depth t v r := by
  rw [readValue.eq_def] at h
  dsimp only at h
  split at h
  · cases h
  next c u =>
  split_ifs at h with hquote hbrace hbracket
  · -- A string.
    subst hquote
    rcases hq : readQuoted (('"' : CodePoint) :: u) with stop | ⟨s, u'⟩
    · simp [hq] at h
    simp only [hq] at h
    obtain ⟨rfl, rfl⟩ := Prod.mk.inj (Except.ok.inj h)
    exact .text hq
  · -- An object, if there is depth left for it.
    subst hbrace
    split at h
    · cases h
    · cases h
    next inner d u' hskip =>
      split_ifs at h with hclose
      · obtain ⟨rfl, rfl⟩ := Prod.mk.inj (Except.ok.inj h)
        exact .emptyObject (hclose ▸ hskip)
      · rcases hm : readMembers n inner [] (d :: u') with stop | ⟨ms, s⟩
        · simp [hm] at h
        simp only [hm] at h
        obtain ⟨rfl, rfl⟩ := Prod.mk.inj (Except.ok.inj h)
        exact .object (by simpa [hskip] using hclose) (hskip ▸ hm)
  · -- A list, likewise.
    subst hbracket
    split at h
    · cases h
    · cases h
    next inner d u' hskip =>
      split_ifs at h with hclose
      · obtain ⟨rfl, rfl⟩ := Prod.mk.inj (Except.ok.inj h)
        exact .emptyList (hclose ▸ hskip)
      · rcases hi : readItems n inner [] (d :: u') with stop | ⟨xs, s⟩
        · simp [hi] at h
        simp only [hi] at h
        obtain ⟨rfl, rfl⟩ := Prod.mk.inj (Except.ok.inj h)
        exact .list (by simpa [hskip] using hclose) (hskip ▸ hi)
  · exact .scalar hquote hbrace hbracket h

theorem ValueRound.readValue_eq {v : Json} (h : ValueRound n depth t v r) :
    readValue (n + 1) depth t = .ok (v, r) := by
  rw [readValue.eq_def]
  cases h with
  | text hq => simp only [if_true, hq]
  | emptyObject hskip =>
    dsimp only
    rw [if_neg (by decide), if_pos rfl, hskip]
    rfl
  | @object depth t _ ms hopen hm =>
    dsimp only
    rw [if_neg (by decide), if_pos rfl]
    cases hskip : skipSpace t with
    | nil => exact absurd (hskip ▸ hm) readMembers_nil_ne
    | cons d u =>
      rw [hskip] at hopen hm
      dsimp only
      rw [if_neg (by simpa using hopen), hm]
  | emptyList hskip =>
    dsimp only
    rw [if_neg (by decide), if_neg (by decide), if_pos rfl, hskip]
    rfl
  | @list depth t _ xs hopen hi =>
    dsimp only
    rw [if_neg (by decide), if_neg (by decide), if_pos rfl]
    cases hskip : skipSpace t with
    | nil => exact absurd (hskip ▸ hi) readItems_nil_ne
    | cons d u =>
      rw [hskip] at hopen hi
      dsimp only
      rw [if_neg (by simpa using hopen), hi]
  | scalar hquote hbrace hbracket hv =>
    dsimp only
    rw [if_neg hquote, if_neg hbrace, if_neg hbracket, hv]

theorem readValue_succ_iff {v : Json} :
    readValue (n + 1) depth t = .ok (v, r) ↔ ValueRound n depth t v r :=
  ⟨valueRound_of_readValue, ValueRound.readValue_eq⟩

theorem readItems_succ_iff {done xs : List Json} :
    readItems (n + 1) depth done t = .ok (xs, r) ↔ ItemsRound n depth done t xs r := by
  rw [readItems.eq_def]
  constructor
  · intro h
    dsimp only at h
    rcases hv : readValue n depth t with stop | ⟨v, u⟩
    · simp [hv] at h
    simp only [hv] at h
    split at h
    · cases h
    next d s hskip =>
      split_ifs at h with hclose hcomma
      · obtain ⟨rfl, rfl⟩ := Prod.mk.inj (Except.ok.inj h)
        exact .last hv (hclose ▸ hskip)
      · exact .more hv (hcomma ▸ hskip) h
  · intro h
    cases h with
    | last hv hskip => simp only [hv, hskip, if_true]
    | more hv hskip hi =>
      simp only [hv, hskip, if_true]
      rw [if_neg (by decide), hi]

theorem readMembers_succ_iff {done ms : Members} :
    readMembers (n + 1) depth done t = .ok (ms, r) ↔ MembersRound n depth done t ms r := by
  rw [readMembers.eq_def]
  constructor
  · intro h
    dsimp only at h
    split_ifs at h with hhead
    rcases hq : readQuoted t with stop | ⟨key, u⟩
    · simp [hq] at h
    simp only [hq] at h
    split at h
    · cases h
    next d s hcolon =>
    split_ifs at h with hd
    rcases hv : readValue n depth (skipSpace s) with stop | ⟨v, u'⟩
    · simp [hv] at h
    simp only [hv] at h
    have hm : ReadsMember n depth t key v u' := ⟨hhead, u, s, hq, hd ▸ hcolon, hv⟩
    split at h
    · cases h
    next e s' hskip =>
      split_ifs at h with hclose hcomma
      · obtain ⟨rfl, rfl⟩ := Prod.mk.inj (Except.ok.inj h)
        exact .last hm (hclose ▸ hskip)
      · exact .more hm (hcomma ▸ hskip) h
  · intro h
    cases h with
    | last hm hskip =>
      obtain ⟨hhead, s, u, hq, hcolon, hv⟩ := hm
      simp only [hhead, hq, hcolon, hv, hskip, if_true]
    | more hm hskip hms =>
      obtain ⟨hhead, s, u, hq, hcolon, hv⟩ := hm
      simp only [hhead, hq, hcolon, hv, hskip, if_true]
      rw [if_neg (by decide), hms]

end TitleClasses.Json
