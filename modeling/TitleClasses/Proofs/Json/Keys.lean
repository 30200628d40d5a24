import Mathlib.Algebra.Order.Field.Rat
import Mathlib.Algebra.Order.Field.Power
import Mathlib.Data.List.Induction
import Mathlib.Tactic.FieldSimp
import Mathlib.Tactic.Linarith
import Mathlib.Tactic.Push
import TitleClasses.Json.Keyed

/-!
# Keys, and what is listed under them

Two values are the same key when they are the same number, of whatever kinds, or one and the same value
(`Json.sameKey_iff`); so being the same key is an equivalence. From this follows what putting values
under keys one after another comes to (`Keyed.lists_foldl_put`): each key stands where it came first, and
has the value that it was given last.
-/

namespace TitleClasses

/-! ### Numbers -/

namespace Binary64

/-- Where a number lies: finite ones among the rationals, infinite ones at either end. -/
def point : Binary64 → Option (ℚ ⊕ Bool)
  | .nan => none
  | .infinite negative => some (.inr negative)
  | .finite negative mantissa exponent => some (.inl (signed negative mantissa * 2 ^ exponent))

theorem powerRatio_two (e : Int) :
    0 < (powerRatio 2 e).2 ∧ ((powerRatio 2 e).1 : ℚ) = 2 ^ e * (powerRatio 2 e).2 := by
  unfold powerRatio
  split_ifs with he
  · refine ⟨Nat.one_pos, ?_⟩
    obtain ⟨n, rfl⟩ := Int.eq_ofNat_of_zero_le he
    simp
  · obtain ⟨n, hn⟩ := Int.eq_ofNat_of_zero_le (show 0 ≤ -e by omega)
    obtain rfl : e = -n := by omega
    refine ⟨Nat.pow_pos Nat.two_pos, ?_⟩
    simp

/-- A number compares as equal with an integer exactly when it lies there. -/
theorem compareRatio_eq_iff (x : Binary64) (n : Int) :
    x.compareRatio n 1 = some .eq ↔ x.point = some (.inl (n : ℚ)) := by
  cases x with
  | nan => simp [compareRatio, point]
  | infinite negative => cases negative <;> simp [compareRatio, point]
  | finite negative mantissa exponent =>
    obtain ⟨hpos, hratio⟩ := powerRatio_two exponent
    have hne : ((powerRatio 2 exponent).2 : ℚ) ≠ 0 := by exact_mod_cast hpos.ne'
    simp only [compareRatio, ratio?, point, Option.map_some, Option.some.injEq, compare_eq_iff_eq,
      Sum.inl.injEq]
    rw [← Int.cast_inj (α := ℚ)]
    push_cast
    rw [hratio, mul_one, ← mul_assoc]
    exact mul_left_inj' hne

theorem compare_signed_eq_iff (a b : Bool) (m n : Nat) :
    (if a = b then (if a then compare n m else compare m n)
      else compare (signed a m) (signed b n)) = .eq ↔ signed a m = signed b n := by
  cases a <;> cases b <;> simp only [signed, if_true, if_false, reduceCtorEq, Bool.false_eq_true,
    compare_eq_iff_eq, neg_inj, Nat.cast_inj]
  exact eq_comm

theorem signed_mul (a : Bool) (m k : Nat) : signed a (m * k) = signed a m * k := by
  cases a <;> simp [signed]

/-- A power of two in units of a smaller one. -/
theorem two_zpow_eq {e low : Int} (h : low ≤ e) : (2 : ℚ) ^ e = 2 ^ (e - low).toNat * 2 ^ low := by
  rw [← zpow_natCast, ← zpow_add₀ two_ne_zero, Int.toNat_of_nonneg (by omega), sub_add_cancel]

/-- Two numbers compare as equal exactly when they lie at one point. -/
theorem compare_eq_iff (x y : Binary64) :
    x.compare? y = some .eq ↔ ∃ p, x.point = some p ∧ y.point = some p := by
  cases x with
  | nan => simp [compare?, point]
  | infinite a =>
    cases y with
    | nan => simp [compare?, point]
    | infinite b => cases a <;> cases b <;> simp [compare?, point]
    | finite b n f => cases a <;> simp [compare?, point]
  | finite a m e =>
    cases y with
    | nan => simp [compare?, point]
    | infinite b => cases b <;> simp [compare?, point]
    | finite b n f =>
      -- In units of the smaller power of two both are integers.
      have hunit : (2 : ℚ) ^ min e f ≠ 0 := zpow_ne_zero _ two_ne_zero
      simp only [compare?, point, Option.some.injEq]
      rw [compare_signed_eq_iff, signed_mul, signed_mul, ← Int.cast_inj (α := ℚ),
        two_zpow_eq (min_le_left e f), two_zpow_eq (min_le_right e f)]
      push_cast
      rw [← mul_assoc, ← mul_assoc, ← mul_left_inj' hunit]
      simp [eq_comm]

end Binary64

namespace Json

/-- Where a number lies, integer or not. -/
def Numeric.point : Numeric → Option (ℚ ⊕ Bool)
  | .exact n => some (.inl n)
  | .binary x => x.point

theorem Numeric.compare_eq_iff (x y : Numeric) :
    x.compare? y = some .eq ↔ ∃ p, x.point = some p ∧ y.point = some p := by
  cases x with
  | exact m =>
    cases y with
    | exact n =>
      simp only [compare?, point, Option.some.injEq, compare_eq_iff_eq, exists_eq_left', Sum.inl.injEq,
        Int.cast_inj]
      exact eq_comm
    | binary y =>
      have hswap : (y.compareRatio m 1).map Ordering.swap = some .eq ↔ y.compareRatio m 1 = some .eq := by
        rcases y.compareRatio m 1 with _ | o
        · simp
        · cases o <;> simp
      simp only [compare?, point, hswap, y.compareRatio_eq_iff, Option.some.injEq, exists_eq_left']
  | binary x =>
    cases y with
    | exact n => simp [compare?, point, x.compareRatio_eq_iff]
    | binary y => exact x.compare_eq_iff y

/-- What makes a value the key that it is: the point where a number lies, and for what lies nowhere the
value itself. -/
def keyPoint (v : Json) : Json ⊕ (ℚ ⊕ Bool) :=
  match v.numeric?.bind Numeric.point with
  | some p => .inr p
  | none => .inl v

/-- Values are the same key exactly when they lie at one point, or are one value that lies nowhere. -/
theorem sameKey_iff (a b : Json) : a.sameKey b = true ↔ a.keyPoint = b.keyPoint := by
  have hsame : a.sameKey b = true ↔
      (∃ p, a.numeric?.bind Numeric.point = some p ∧ b.numeric?.bind Numeric.point = some p) ∨ a = b := by
    unfold sameKey
    rcases a.numeric? with _ | x <;> rcases b.numeric? with _ | y
    · simp
    · simp
    · simp
    · simp [Numeric.compare_eq_iff]
  rw [hsame]
  unfold keyPoint
  constructor
  · rintro (⟨p, ha, hb⟩ | rfl)
    · rw [ha, hb]
    · rfl
  · intro h
    rcases ha : a.numeric?.bind Numeric.point with _ | p <;>
      rcases hb : b.numeric?.bind Numeric.point with _ | q
    · rw [ha, hb] at h
      exact .inr (Sum.inl.inj h)
    · rw [ha, hb] at h
      cases h
    · rw [ha, hb] at h
      cases h
    · rw [ha, hb] at h
      obtain rfl := Sum.inr.inj h
      exact .inl ⟨p, rfl, rfl⟩

theorem sameKey_refl (a : Json) : a.sameKey a = true := (sameKey_iff a a).mpr rfl

theorem sameKey_comm (a b : Json) : a.sameKey b = b.sameKey a := by
  rw [Bool.eq_iff_iff, sameKey_iff, sameKey_iff, eq_comm]

/-- What is the same key as one of two that are the same is the same key as the other. -/
theorem sameKey_congr {a b : Json} (h : a.sameKey b = true) (c : Json) : a.sameKey c = b.sameKey c := by
  rw [Bool.eq_iff_iff, sameKey_iff, sameKey_iff, (sameKey_iff a b).mp h]

end Json

/-! ### Values under keys -/

namespace Keyed

variable {α : Type}

/-- The value that a key has after another one was given a value. -/
theorem get?_put (key other : Json) (x : α) (xs : Keyed α) :
    get? other (put key x xs) = if key.sameKey other then some x else get? other xs := by
  induction xs with
  | nil => rfl
  | cons entry rest ih =>
    obtain ⟨k, y⟩ := entry
    rw [put]
    by_cases hk : k.sameKey key = true
    · rw [if_pos hk, get?, get?, Json.sameKey_congr hk]
      split_ifs <;> rfl
    · rw [if_neg hk, get?, get?, ih]
      by_cases hother : key.sameKey other = true
      · -- The key of the first entry is a different one, and so it is not the other key.
        have hne : ¬ k.sameKey other = true := by
          rwa [Json.sameKey_comm, ← Json.sameKey_congr hother, Json.sameKey_comm]
        rw [if_pos hother, if_pos hother, if_neg hne]
      · rw [if_neg hother, if_neg hother]

/-- The keys of a list, each once, in the order in which they come first. -/
def firsts : List Json → List Json
  | [] => []
  | key :: keys => key :: (firsts keys).filter fun k => !key.sameKey k

/-- A key that comes last is one more only if it has not come before. -/
theorem firsts_append_singleton (keys : List Json) (key : Json) :
    firsts (keys ++ [key]) = firsts keys ++ if keys.any fun k => k.sameKey key then [] else [key] := by
  induction keys with
  | nil => rfl
  | cons k keys ih =>
    rw [List.cons_append, firsts, ih, List.filter_append, firsts, List.any_cons, List.cons_append]
    congr 2
    cases hk : k.sameKey key <;> cases ha : keys.any fun k => k.sameKey key <;> simp [hk]

/-- Putting a value under a key adds the key at the end, unless it was there. -/
theorem keys_put (key : Json) (x : α) (xs : Keyed α) : (put key x xs).map Prod.fst =
    xs.map Prod.fst ++ if (xs.map Prod.fst).any fun k => k.sameKey key then [] else [key] := by
  induction xs with
  | nil => rfl
  | cons entry rest ih =>
    obtain ⟨k, y⟩ := entry
    rw [put]
    cases hk : k.sameKey key with
    | true => simp [hk]
    | false =>
      rw [if_neg Bool.false_ne_true, List.map_cons, ih, List.map_cons, List.any_cons, hk, Bool.false_or,
        List.cons_append]

/-- What was given to a key last, among values that were given to keys one after another. -/
def last? (key : Json) (entries : List (Json × α)) : Option α :=
  (entries.reverse.find? fun e => e.1.sameKey key).map Prod.snd

/-- Whether values stand under the keys of a list of entries: each key at the place where it came first,
with the value that it was given last. -/
structure Lists (entries : List (Json × α)) (xs : Keyed α) : Prop where
  keys : xs.map Prod.fst = firsts (entries.map Prod.fst)
  get : ∀ key, get? key xs = last? key entries

theorem any_firsts (keys : List Json) (key : Json) :
    ((firsts keys).any fun k => k.sameKey key) = keys.any fun k => k.sameKey key := by
  induction keys with
  | nil => rfl
  | cons k keys ih =>
    rw [firsts, List.any_cons, List.any_cons]
    cases hk : k.sameKey key with
    | true => rfl
    | false =>
      -- Nothing that is taken away is the same key.
      rw [Bool.false_or, Bool.false_or, ← ih, List.any_filter]
      congr 1
      funext l
      cases hl : l.sameKey key with
      | false => simp
      | true =>
        have hne : k.sameKey l = false := by
          rw [← hk, Json.sameKey_comm k l, Json.sameKey_congr hl, Json.sameKey_comm]
        simp [hne]

theorem firsts_pairwise (keys : List Json) : (firsts keys).Pairwise fun k l => k.sameKey l = false := by
  induction keys with
  | nil => exact .nil
  | cons k keys ih =>
    refine .cons (fun l hl => ?_) (ih.sublist List.filter_sublist)
    simpa using (List.mem_filter.mp hl).2

/-- Where no key stands twice, each has the value that stands beside it. -/
theorem get?_of_mem {xs : Keyed α} (h : (xs.map Prod.fst).Pairwise fun k l => k.sameKey l = false)
    {key : Json} {x : α} (hin : (key, x) ∈ xs) : get? key xs = some x := by
  induction xs with
  | nil => cases hin
  | cons entry rest ih =>
    obtain ⟨k, y⟩ := entry
    obtain ⟨hk, hrest⟩ := List.pairwise_cons.mp h
    rw [get?]
    rcases List.mem_cons.mp hin with heq | hin
    · obtain ⟨rfl, rfl⟩ := Prod.mk.inj heq
      rw [if_pos (Json.sameKey_refl key)]
    · rw [hk key (List.mem_map_of_mem hin), if_neg Bool.false_ne_true]
      exact ih hrest hin

/-- Entries are listed in one way. -/
theorem Lists.unique {entries : List (Json × α)} {xs ys : Keyed α} (hx : Lists entries xs)
    (hy : Lists entries ys) : xs = ys := by
  have hkeys : xs.map Prod.fst = ys.map Prod.fst := hx.keys.trans hy.keys.symm
  have hlength : xs.length = ys.length := by simpa using congrArg List.length hkeys
  refine List.ext_getElem hlength fun i hi hi' => ?_
  have hkey : xs[i].1 = ys[i].1 := by
    simpa using List.getElem_of_eq hkeys (show i < (xs.map Prod.fst).length by simpa using hi)
  have hx' : get? xs[i].1 xs = some xs[i].2 :=
    get?_of_mem (hx.keys ▸ firsts_pairwise _) (List.getElem_mem hi)
  have hy' : get? ys[i].1 ys = some ys[i].2 :=
    get?_of_mem (hy.keys ▸ firsts_pairwise _) (List.getElem_mem hi')
  rw [hx.get, hkey, ← hy.get, hy'] at hx'
  exact Prod.ext hkey (Option.some.inj hx').symm

theorem lists_nil : Lists ([] : List (Json × α)) [] := ⟨rfl, fun _ => rfl⟩

/-- One entry more. -/
theorem Lists.put {entries : List (Json × α)} {xs : Keyed α} (h : Lists entries xs) (key : Json) (x : α) :
    Lists (entries ++ [(key, x)]) (put key x xs) where
  keys := by
    rw [keys_put, h.keys, any_firsts, List.map_append, List.map_singleton, firsts_append_singleton]
  get other := by
    rw [get?_put, h.get, last?, last?, List.reverse_append, List.reverse_singleton, List.singleton_append,
      List.find?_cons]
    cases key.sameKey other <;> rfl

/-- Putting entries one after another lists them. -/
theorem lists_foldl_put (entries : List (Json × α)) :
    Lists entries (entries.foldl (fun xs e => Keyed.put e.1 e.2 xs) []) := by
  induction entries using List.reverseRecOn with
  | nil => exact lists_nil
  | append_singleton entries e ih =>
    rw [List.foldl_append]
    exact ih.put e.1 e.2

end Keyed

end TitleClasses
