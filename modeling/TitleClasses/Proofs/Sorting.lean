import TitleClasses.Proofs.Fault
import TitleClasses.Sorting.Runs

/-!
# Sorting what can be compared

Comparisons may fail, and sorting fails with the first one that does. Values of which any two can be
compared are sorted without a fault, into values that were among them (`Sorting.gives_sort`). Each part
of the sort has the same lemma: among comparable values it gives an answer, and takes no value from
anywhere else.
-/

namespace TitleClasses

variable {ε α : Type}

namespace Sorting

/-! ### Leaps -/

section Leap

variable {test : α → Except ε Bool}

theorem gives_stride {xs : List α} (h : ∀ x ∈ xs, Gives (test x) fun _ => True) (last next : Nat) :
    Gives (stride test xs last next) fun _ => True := by
  induction last, next using stride.induct xs with
  | case1 last next hlt ih =>
    rw [stride, dif_pos hlt]
    refine (h _ (List.getElem_mem hlt)).bind fun b _ => ?_
    cases b with
    | true => exact ih
    | false => exact gives_ok trivial
  | case2 last next hge =>
    rw [stride, dif_neg hge]
    exact gives_ok trivial

theorem gives_halve {xs : List α} (h : ∀ x ∈ xs, Gives (test x) fun _ => True) (far : Bool)
    (n low high : Nat) : Gives (halve test far xs n low high) fun _ => True := by
  induction n generalizing low high with
  | zero => exact gives_ok trivial
  | succ n ih =>
    rw [halve]
    split
    · exact gives_ok trivial
    · dsimp only
      split
      · exact gives_ok trivial
      · rename_i x hx
        refine (h x (List.mem_of_getElem? hx)).bind fun b _ => ?_
        cases b with
        | true => exact ih _ _
        | false => exact ih _ _

theorem gives_leading {xs : List α} (h : ∀ x ∈ xs, Gives (test x) fun _ => True) (far : Bool) :
    Gives (leading test far xs) fun _ => True := by
  cases xs with
  | nil => exact gives_ok trivial
  | cons x xs =>
    rw [leading]
    refine (h x List.mem_cons_self).bind fun b _ => ?_
    cases b with
    | false => exact gives_ok trivial
    | true =>
      refine (gives_stride h 0 1).bind fun border _ => ?_
      exact (gives_halve h far _ border.1 border.2).bind fun n _ => gives_ok trivial

end Leap

/-! ### Merging -/

section Compare

variable {P : α → Prop}

/-- Whether all values of a merge have a property. -/
structure Merge.All (P : α → Prop) (m : Merge α) : Prop where
  taken : ∀ x ∈ m.taken, P x
  moving : ∀ x ∈ m.moving, P x
  held : ∀ x ∈ m.held, P x

theorem Merge.All.takeMoving {m : Merge α} (h : m.All P) (n : Nat) : (m.takeMoving n).All P where
  taken x hx := by
    rcases List.mem_append.mp hx with hx | hx
    · exact h.moving x (List.mem_of_mem_take (List.mem_reverse.mp hx))
    · exact h.taken x hx
  moving x hx := h.moving x (List.mem_of_mem_drop hx)
  held := h.held

theorem Merge.All.takeHeld {m : Merge α} (h : m.All P) (n : Nat) : (m.takeHeld n).All P where
  taken x hx := by
    rcases List.mem_append.mp hx with hx | hx
    · exact h.held x (List.mem_of_mem_take (List.mem_reverse.mp hx))
    · exact h.taken x hx
  moving := h.moving
  held x hx := h.held x (List.mem_of_mem_drop hx)

/-- The pace and the patience of a merge are no values of it. -/
theorem Merge.All.paced {m : Merge α} (h : m.All P) (pace : Pace) (patience : Nat) :
    Merge.All P { m with pace := pace, patience := patience } :=
  ⟨h.taken, h.moving, h.held⟩

theorem Merge.All.values {m : Merge α} (h : m.All P) : ∀ x ∈ m.values, P x := by
  intro x hx
  rcases List.mem_append.mp hx with hx | hx
  · rcases List.mem_append.mp hx with hx | hx
    · exact h.taken x (List.mem_reverse.mp hx)
    · exact h.moving x hx
  · exact h.held x hx

variable {before : Comparison ε α} (hbefore : ∀ a b, P a → P b → Gives (before a b) fun _ => True)
include hbefore

theorem gives_not {a b : α} (ha : P a) (hb : P b) :
    Gives (do return !(← before a b) : Except ε Bool) fun _ => True :=
  (hbefore a b ha hb).bind fun _ _ => gives_ok trivial

namespace Merge

variable {m : Merge α}

theorem gives_takeOne (h : m.All P) : Gives (m.takeOne before) (All P) := by
  unfold takeOne
  split
  · rename_i u us c cs hmoving hheld
    have hu : P u := h.moving u (hmoving ▸ List.mem_cons_self)
    have hc : P c := h.held c (hheld ▸ List.mem_cons_self)
    refine (hbefore u c hu hc).bind fun moving _ => ?_
    cases moving with
    | true => exact gives_ok ((h.takeMoving 1).paced _ _)
    | false => exact gives_ok ((h.takeHeld 1).paced _ _)
  · exact gives_ok h

theorem gives_leapHeld (h : m.All P) (far : Bool) :
    Gives (m.leapHeld before far) fun leapt => leapt.2.All P := by
  unfold leapHeld
  split
  · exact gives_ok h
  · rename_i u us hmoving
    have hu : P u := h.moving u (hmoving ▸ List.mem_cons_self)
    refine (gives_leading (fun c hc => gives_not hbefore hu (h.held c hc)) far).bind fun n _ => ?_
    dsimp only
    split
    · exact gives_ok (h.takeHeld n)
    · exact gives_ok ((h.takeHeld n).takeMoving 1)

theorem gives_leapMoving (h : m.All P) (far : Bool) :
    Gives (m.leapMoving before far) fun leapt => leapt.2.All P := by
  unfold leapMoving
  split
  · exact gives_ok h
  · rename_i c cs hheld
    have hc : P c := h.held c (hheld ▸ List.mem_cons_self)
    refine (gives_leading (fun u hu => hbefore u c (h.moving u hu) hc) far).bind fun n _ => ?_
    dsimp only
    split
    · exact gives_ok (h.takeMoving n)
    · exact gives_ok ((h.takeMoving n).takeHeld 1)

omit hbefore in
/-- Two groups are taken, and then the pace is set anew. -/
theorem gives_groups {one : Except ε (Nat × Merge α)} {other : Merge α → Except ε (Nat × Merge α)}
    (hone : Gives one fun leapt => leapt.2.All P)
    (hother : ∀ m : Merge α, m.All P → Gives (other m) fun leapt => leapt.2.All P) :
    Gives (do
      let (first, next) ← one
      if next.isSettled then return next
      let (second, next) ← other next
      if next.isSettled then return next
      if longGroup ≤ first || longGroup ≤ second then
        return { next with patience := max 1 (next.patience - 1) }
      else return { next with pace := .single false 0, patience := next.patience + 1 })
      (All P) := by
  refine hone.bind ?_
  rintro ⟨first, next⟩ hnext
  dsimp only
  split
  · exact gives_ok hnext
  refine (hother next hnext).bind ?_
  rintro ⟨second, last⟩ hlast
  dsimp only
  split
  · exact gives_ok hlast
  · split
    · exact gives_ok (hlast.paced _ _)
    · exact gives_ok (hlast.paced _ _)

theorem gives_leap (h : m.All P) (front : Bool) : Gives (m.leap before front) (All P) := by
  have hheld (m : Merge α) (h : m.All P) := gives_leapHeld hbefore h front
  have hmoving (m : Merge α) (h : m.All P) := gives_leapMoving hbefore h front
  cases front with
  | true => exact gives_groups (hheld m h) hmoving
  | false => exact gives_groups (hmoving m h) hheld

theorem gives_finish (h : m.All P) (front : Bool) (n : Nat) :
    Gives (finish before front n m) (All P) := by
  induction n generalizing m with
  | zero => exact gives_ok h
  | succ n ih =>
    rw [finish]
    split
    · exact gives_ok h
    · split
      · exact (gives_takeOne hbefore h).bind fun next hnext => ih hnext
      · exact (gives_leap hbefore h front).bind fun next hnext => ih hnext

theorem gives_complete {moving held : List α} (hmoving : ∀ x ∈ moving, P x) (hheld : ∀ x ∈ held, P x)
    (front : Bool) (patience : Nat) :
    Gives (complete before front patience moving held) fun merged => ∀ x ∈ merged.1, P x := by
  have hstart : All P (⟨[], moving, held, .single false 0, patience⟩ : Merge α) :=
    ⟨List.forall_mem_nil P, hmoving, hheld⟩
  unfold complete
  exact (gives_finish hbefore (hstart.takeMoving 1) front _).bind fun m hm => gives_ok hm.values

end Merge

theorem gives_mergeRuns {first second : List α} (hfirst : ∀ x ∈ first, P x)
    (hsecond : ∀ x ∈ second, P x) (patience : Nat) :
    Gives (mergeRuns before patience first second) fun merged => ∀ x ∈ merged.1, P x := by
  have hboth : ∀ x ∈ first ++ second, P x := fun x hx =>
    (List.mem_append.mp hx).elim (hfirst x) (hsecond x)
  unfold mergeRuns
  split
  · exact gives_ok hfirst
  rename_i head rest
  have hhead : P head := hsecond head List.mem_cons_self
  refine (gives_leading (fun x hx => gives_not hbefore hhead (hfirst x hx)) true).bind fun n _ => ?_
  dsimp only
  split
  · exact gives_ok hboth
  rename_i last hlast
  have hleft : ∀ x ∈ first.drop n, P x := fun x hx => hfirst x (List.mem_of_mem_drop hx)
  have hlast : P last := hleft last (List.mem_of_getLast? hlast)
  refine (gives_leading (fun y hy => gives_not hbefore (hsecond y (List.mem_reverse.mp hy)) hlast)
    false).bind fun k _ => ?_
  split
  · exact gives_ok hboth
  have hright : ∀ x ∈ (head :: rest).take ((head :: rest).length - k), P x := fun x hx =>
    hsecond x (List.mem_of_mem_take hx)
  -- What stands in its place already goes round what is merged.
  have haround (merged : List α) (h : ∀ x ∈ merged, P x) : ∀ x ∈ first.take n ++ merged ++
      (head :: rest).drop ((head :: rest).length - k), P x := by
    intro x hx
    rcases List.mem_append.mp hx with hx | hx
    · rcases List.mem_append.mp hx with hx | hx
      · exact hfirst x (List.mem_of_mem_take hx)
      · exact h x hx
    · exact hsecond x (List.mem_of_mem_drop hx)
  split
  · exact (Merge.gives_complete hbefore hright hleft true patience).bind fun merged h =>
      gives_ok (haround merged.1 h)
  · have hswapped (a b : α) (ha : P a) (hb : P b) :
        Gives ((fun u c => before c u) a b) fun _ => True := hbefore b a hb ha
    have hbackward := Merge.gives_complete hswapped (fun x hx => hleft x (List.mem_reverse.mp hx))
      (fun x hx => hright x (List.mem_reverse.mp hx)) false patience
    exact hbackward.bind fun merged h =>
      gives_ok (haround merged.1.reverse fun x hx => h x (List.mem_reverse.mp hx))

/-! ### Runs -/

theorem gives_runLength (falling : Bool) {previous : α} {xs : List α} (hprevious : P previous)
    (hxs : ∀ x ∈ xs, P x) : Gives (runLength before falling previous xs) fun _ => True := by
  induction xs generalizing previous with
  | nil => exact gives_ok trivial
  | cons x xs ih =>
    obtain ⟨hx, hrest⟩ := List.forall_mem_cons.mp hxs
    rw [runLength]
    refine (hbefore x previous hx hprevious).bind fun b _ => ?_
    split
    · exact (ih hx hrest).bind fun n _ => gives_ok trivial
    · exact gives_ok trivial

theorem gives_searchPlace {sorted : List α} {v : α} (hsorted : ∀ x ∈ sorted, P x) (hv : P v)
    (n low high : Nat) : Gives (searchPlace before sorted v n low high) fun _ => True := by
  induction n generalizing low high with
  | zero => exact gives_ok trivial
  | succ n ih =>
    rw [searchPlace]
    split
    · exact gives_ok trivial
    · dsimp only
      split
      · exact gives_ok trivial
      · rename_i w hw
        refine (hbefore v w hv (hsorted w (List.mem_of_getElem? hw))).bind fun b _ => ?_
        cases b with
        | true => exact ih _ _
        | false => exact ih _ _

theorem gives_insertAll {sorted vs : List α} (hsorted : ∀ x ∈ sorted, P x) (hvs : ∀ x ∈ vs, P x) :
    Gives (insertAll before sorted vs) fun all => ∀ x ∈ all, P x := by
  induction vs generalizing sorted with
  | nil => exact gives_ok hsorted
  | cons v vs ih =>
    obtain ⟨hv, hrest⟩ := List.forall_mem_cons.mp hvs
    rw [insertAll]
    refine (gives_searchPlace hbefore hsorted hv _ 0 sorted.length).bind fun place _ => ?_
    refine ih (fun x hx => ?_) hrest
    rcases List.mem_append.mp hx with hx | hx
    · exact hsorted x (List.mem_of_mem_take hx)
    · rcases List.mem_cons.mp hx with rfl | hx
      · exact hv
      · exact hsorted x (List.mem_of_mem_drop hx)

theorem gives_takeRun (usual : Nat) {xs : List α} (hxs : ∀ x ∈ xs, P x) :
    Gives (takeRun before usual xs) fun run => (∀ x ∈ run.1, P x) ∧ ∀ x ∈ run.2, P x := by
  cases xs with
  | nil => exact gives_ok ⟨hxs, hxs⟩
  | cons v rest =>
    cases rest with
    | nil => exact gives_ok ⟨hxs, List.forall_mem_nil P⟩
    | cons w rest =>
      obtain ⟨hv, hrest⟩ := List.forall_mem_cons.mp hxs
      obtain ⟨hw, hrest'⟩ := List.forall_mem_cons.mp hrest
      rw [takeRun]
      refine (hbefore w v hw hv).bind fun falling _ => ?_
      refine (gives_runLength hbefore falling hw hrest').bind fun n _ => ?_
      have htake (m : Nat) : ∀ x ∈ (v :: w :: rest).take m, P x := fun x hx =>
        hxs x (List.mem_of_mem_take hx)
      have hdrop (m : Nat) : ∀ x ∈ (v :: w :: rest).drop m, P x := fun x hx =>
        hxs x (List.mem_of_mem_drop hx)
      have hrun : ∀ x ∈ (if falling then ((v :: w :: rest).take (n + 2)).reverse
          else (v :: w :: rest).take (n + 2)), P x := by
        split
        · exact fun x hx => htake (n + 2) x (List.mem_reverse.mp hx)
        · exact htake (n + 2)
      dsimp only
      split
      · exact gives_ok ⟨hrun, hdrop (n + 2)⟩
      · refine (gives_insertAll hbefore hrun fun x hx => ?_).bind fun run h => gives_ok ⟨h, hdrop usual⟩
        exact htake usual x (List.mem_of_mem_drop hx)

theorem gives_settle (depth patience : Nat) {top : List α} {runs : List (Waiting α)}
    (htop : ∀ x ∈ top, P x) (hruns : ∀ w ∈ runs, ∀ x ∈ w.values, P x) :
    Gives (settle before depth patience top runs) fun pile => ∀ w ∈ pile.runs, ∀ x ∈ w.values, P x := by
  induction runs generalizing patience top with
  | nil =>
    rw [settle]
    exact gives_ok fun w hw => List.mem_singleton.mp hw ▸ htop
  | cons next rest ih =>
    obtain ⟨hnext, hrest⟩ := List.forall_mem_cons.mp hruns
    rw [settle]
    split
    · exact (gives_mergeRuns hbefore hnext htop patience).bind fun merged h => ih merged.2 h hrest
    · refine gives_ok fun w hw => ?_
      rcases List.mem_cons.mp hw with rfl | hw
      · exact htop
      · exact hruns w hw

theorem Pile.gives_add (n : Nat) {run : List α} {pile : Pile α} (hrun : ∀ x ∈ run, P x)
    (hpile : ∀ w ∈ pile.runs, ∀ x ∈ w.values, P x) :
    Gives (pile.add before n run) fun pile => ∀ w ∈ pile.runs, ∀ x ∈ w.values, P x := by
  unfold Pile.add
  split
  · exact gives_ok fun w hw => List.mem_singleton.mp hw ▸ hrun
  · rename_i top rest hruns
    rw [hruns] at hpile
    obtain ⟨htop, hrest⟩ := List.forall_mem_cons.mp hpile
    refine (gives_settle hbefore _ pile.patience htop hrest).bind fun settled h => ?_
    refine gives_ok fun w hw => ?_
    rcases List.mem_cons.mp hw with rfl | hw
    · exact hrun
    · exact h w hw

theorem gives_mergeAll (n patience : Nat) {runs : List (Waiting α)}
    (hruns : ∀ w ∈ runs, ∀ x ∈ w.values, P x) :
    Gives (mergeAll before n patience runs) fun all => ∀ x ∈ all, P x := by
  induction n generalizing patience runs with
  | zero =>
    match runs with
    | [] => exact gives_ok (List.forall_mem_nil P)
    | [w] => exact gives_ok (hruns w List.mem_cons_self)
    | w :: _ :: _ => exact gives_ok (hruns w List.mem_cons_self)
  | succ n ih =>
    have hmerge {a b : Waiting α} (ha : ∀ x ∈ a.values, P x) (hb : ∀ x ∈ b.values, P x) :=
      gives_mergeRuns hbefore hb ha patience
    match runs with
    | [] => exact gives_ok (List.forall_mem_nil P)
    | [w] => exact gives_ok (hruns w List.mem_cons_self)
    | [a, b] =>
      obtain ⟨ha, hb⟩ := List.forall_mem_cons.mp hruns
      rw [mergeAll]
      refine (hmerge ha (hb b List.mem_cons_self)).bind fun merged h => ih merged.2 ?_
      exact fun w hw => List.mem_singleton.mp hw ▸ h
    | a :: b :: c :: rest =>
      obtain ⟨ha, hbs⟩ := List.forall_mem_cons.mp hruns
      obtain ⟨hb, hcs⟩ := List.forall_mem_cons.mp hbs
      obtain ⟨hc, hrest⟩ := List.forall_mem_cons.mp hcs
      rw [mergeAll]
      split
      · refine (hmerge hb hc).bind fun merged h => ih merged.2 ?_
        exact List.forall_mem_cons.mpr ⟨ha, List.forall_mem_cons.mpr ⟨h, hrest⟩⟩
      · refine (hmerge ha hb).bind fun merged h => ih merged.2 ?_
        exact List.forall_mem_cons.mpr ⟨h, hcs⟩

theorem Pile.gives_collect (n rounds : Nat) {vs : List α} {pile : Pile α} (hvs : ∀ x ∈ vs, P x)
    (hpile : ∀ w ∈ pile.runs, ∀ x ∈ w.values, P x) :
    Gives (Pile.collect before n rounds vs pile) fun pile => ∀ w ∈ pile.runs, ∀ x ∈ w.values, P x := by
  induction rounds generalizing vs pile with
  | zero =>
    rw [Pile.collect]
    exact gives_ok hpile
  | succ rounds ih =>
    cases vs with
    | nil =>
      rw [Pile.collect]
      · exact gives_ok hpile
      · exact fun h => nomatch h
    | cons v vs =>
      rw [Pile.collect]
      refine (gives_takeRun hbefore (usualRun n) hvs).bind fun run h => ?_
      exact (Pile.gives_add hbefore n h.1 hpile).bind fun pile hpile => ih h.2 hpile

/-- Values of which any two can be compared are sorted, and nothing comes of it but such values. -/
theorem gives_sort {xs : List α} (hxs : ∀ x ∈ xs, P x) :
    Gives (sort before xs) fun sorted => ∀ x ∈ sorted, P x := by
  unfold sort
  refine (Pile.gives_collect hbefore xs.length xs.length hxs (List.forall_mem_nil _)).bind
    fun pile hpile => ?_
  exact gives_mergeAll hbefore pile.runs.length pile.patience hpile

end Compare

end Sorting

end TitleClasses
