import Mathlib.Tactic.SplitIfs
import TitleClasses.Proofs.Files.Reading

/-!
# What a change of the file system leaves alone

What stands at a place changes only when something is put there or taken away (`node?_setNode_of_ne`,
`node?_dropNode_of_ne`), and a path leads to the same place as long as the directories stay
(`place_of_stay`). Records that are made leave bytes alone unless the log is open on them
(`readBytes_keep`). The rows of tables are followed through all changes by `rows`.
-/

namespace TitleClasses

/-- The rows of what stands at a place. -/
def Node.rows : Node → List ProcessedRow
  | .table rows => rows
  | _ => []

namespace Files

open Utf8 (Bytes)

variable {fs : Files}

/-! ### What stands at a place -/

@[simp] theorem node?_root (fs : Files) : fs.node? [] = some .directory := rfl

theorem node?_of_ne_nil {p : Place} (h : p ≠ []) :
    fs.node? p = (fs.nodes.lookup p).map (fs.withLog p) := by
  rw [node?, if_neg]
  rwa [List.isEmpty_iff]

/-- Without the entries of one place, any other place has what it had. -/
theorem lookup_filter_ne {p q : Place} (nodes : List (Place × Node)) (h : p ≠ q) :
    (nodes.filter fun entry => entry.1 ≠ q).lookup p = nodes.lookup p := by
  induction nodes with
  | nil => rfl
  | cons entry nodes ih =>
    obtain ⟨r, n⟩ := entry
    by_cases hr : r = q
    · have hp : (p == r) = false := by
        rw [hr]
        simpa using h
      rw [List.filter_cons_of_neg (by simp [hr]), List.lookup_cons, hp, ih]
    · rw [List.filter_cons_of_pos (by simp [hr]), List.lookup_cons, List.lookup_cons, ih]

theorem lookup_filter_self (p : Place) (nodes : List (Place × Node)) :
    (nodes.filter fun entry => entry.1 ≠ p).lookup p = none := by
  induction nodes with
  | nil => rfl
  | cons entry nodes ih =>
    obtain ⟨r, n⟩ := entry
    by_cases hr : r = p
    · rw [List.filter_cons_of_neg (by simp [hr]), ih]
    · have hp : (p == r) = false := by simpa using Ne.symm hr
      rw [List.filter_cons_of_pos (by simp [hr]), List.lookup_cons, hp, ih]

/-- What was put at a place stands there. -/
theorem node?_setNode_self {p : Place} (h : p ≠ []) (n : Node) :
    (fs.setNode p n).node? p = some n := by
  -- A log that is open on the place starts again behind what was put there.
  have hlog : (fs.setNode p n).withLog p n = n := by
    unfold withLog setNode
    cases fs.log with
    | none => rfl
    | some l =>
      cases n with
      | file bytes =>
        simp only [Option.map_some]
        by_cases hp : l.place = p
        · simp [hp, OpenLog.restart, OpenLog.bytes]
        · simp [hp]
      | directory => rfl
      | table rows => rfl
  have hlook : (fs.setNode p n).nodes.lookup p = some n := by
    show (fs.nodes.filter (fun entry => entry.1 ≠ p) ++ [(p, n)]).lookup p = some n
    rw [List.lookup_append, lookup_filter_self]
    simp
  rw [node?_of_ne_nil h, hlook, Option.map_some, hlog]

/-- What was put at a place changes nothing at any other. -/
theorem node?_setNode_of_ne {p q : Place} (h : p ≠ q) (n : Node) :
    (fs.setNode q n).node? p = fs.node? p := by
  by_cases hp : p = []
  · rw [hp]
    rfl
  have hlook : (fs.setNode q n).nodes.lookup p = fs.nodes.lookup p := by
    have hb : (p == q) = false := by simpa using h
    show (fs.nodes.filter (fun entry => entry.1 ≠ q) ++ [(q, n)]).lookup p = _
    rw [List.lookup_append, lookup_filter_ne _ h, List.lookup_cons, hb]
    simp
  have hlog : (fs.setNode q n).withLog p = fs.withLog p := by
    funext m
    unfold withLog setNode
    cases fs.log with
    | none => rfl
    | some l =>
      by_cases hq : l.place = q
      · have hne : l.place ≠ p := fun hlp => h (hlp ▸ hq)
        cases m <;> simp [hq, Ne.symm h, OpenLog.restart]
      · cases m <;> simp [hq]
  rw [node?_of_ne_nil hp, node?_of_ne_nil hp, hlook, hlog]

/-- Nothing stands where something was taken away. -/
theorem node?_dropNode_self {p : Place} (h : p ≠ []) : (fs.dropNode p).node? p = none := by
  have hlook : (fs.dropNode p).nodes.lookup p = none := lookup_filter_self p fs.nodes
  rw [node?_of_ne_nil h, hlook]
  rfl

/-- What was taken away at a place changes nothing at any other. -/
theorem node?_dropNode_of_ne {p q : Place} (h : p ≠ q) : (fs.dropNode q).node? p = fs.node? p := by
  by_cases hp : p = []
  · rw [hp]
    rfl
  have hlook : (fs.dropNode q).nodes.lookup p = fs.nodes.lookup p := lookup_filter_ne fs.nodes h
  have hlog : (fs.dropNode q).withLog p = fs.withLog p := by
    funext m
    unfold withLog dropNode
    cases fs.log with
    | none => rfl
    | some l =>
      by_cases hq : l.place = q
      · have hne : l.place ≠ p := fun hlp => h (hlp ▸ hq)
        cases m <;> simp [Option.filter, hq, Ne.symm h]
      · cases m <;> simp [Option.filter, hq]
  rw [node?_of_ne_nil hp, node?_of_ne_nil hp, hlook, hlog]

/-! ### Log records -/

/-- Whether no log is open on the file at a place. -/
def NoLogAt (fs : Files) (p : Place) : Prop := ∀ l, fs.log = some l → l.place ≠ p

/-- Records that are made add to the file of the open log only. -/
theorem node?_keep (log : Log) {p : Place} (h : fs.NoLogAt p) :
    (LogKeeper.keep log fs).node? p = fs.node? p := by
  by_cases hp : p = []
  · rw [hp]
    rfl
  have hlog : (LogKeeper.keep log fs).withLog p = fs.withLog p := by
    funext m
    show withLog { fs with log := fs.log.map fun l => l.take log } p m = _
    unfold withLog
    cases hl : fs.log with
    | none => rfl
    | some l => cases m <;> simp [OpenLog.take, h l hl]
  rw [node?_of_ne_nil hp, node?_of_ne_nil hp, hlog]
  rfl

/-- A log only adds bytes to a file. -/
theorem withLog_eq_iff (l : Option OpenLog) (p : Place) {n m : Node} (hm : ∀ bytes, m ≠ .file bytes) :
    withLog { fs with log := l } p n = m ↔ n = m := by
  unfold withLog
  cases l with
  | none => rfl
  | some l =>
    cases n with
    | file bytes => by_cases hl : l.place = p <;> simp [hl, (hm _).symm]
    | directory => rfl
    | table rows => rfl

/-- Records that are made do not go into a table. -/
theorem node?_keep_table (log : Log) {p : Place} {rows : List ProcessedRow}
    (h : fs.node? p = some (.table rows)) :
    (LogKeeper.keep log fs : Files).node? p = some (.table rows) := by
  have hp : p ≠ [] := by
    rintro rfl
    cases h
  have htable (l : Option OpenLog) (n : Node) :
      withLog { fs with log := l } p n = .table rows ↔ n = .table rows :=
    withLog_eq_iff l p fun bytes heq => nomatch heq
  rw [node?_of_ne_nil hp] at h ⊢
  obtain ⟨n, hn, hlog⟩ := Option.map_eq_some_iff.mp h
  exact Option.map_eq_some_iff.mpr ⟨n, hn, (htable _ n).mpr ((htable fs.log n).mp hlog)⟩

theorem noLogAt_keep (log : Log) {p : Place} (h : fs.NoLogAt p) :
    (LogKeeper.keep log fs : Files).NoLogAt p := by
  intro l hl
  change (fs.log.map fun l => l.take log) = some l at hl
  obtain ⟨l', hl', rfl⟩ := Option.map_eq_some_iff.mp hl
  exact h l' hl'

theorem noLogAt_setNode {p q : Place} (n : Node) (h : fs.NoLogAt p) : (fs.setNode q n).NoLogAt p := by
  intro l hl
  change (fs.log.map fun l => if l.place = q then l.restart else l) = some l at hl
  obtain ⟨l', hl', rfl⟩ := Option.map_eq_some_iff.mp hl
  have := h l' hl'
  split_ifs <;> exact this

/-- A log has no file any more when that is taken away. -/
theorem noLogAt_dropNode_self (p : Place) : (fs.dropNode p).NoLogAt p := by
  intro l hl
  simpa using (Option.filter_eq_some_iff.mp hl).2

/-- Records that are made turn nothing into a directory, and no directory into anything else. -/
theorem node?_keep_directory (log : Log) (p : Place) :
    ((LogKeeper.keep log fs).node? p = none ↔ fs.node? p = none) ∧
      ((LogKeeper.keep log fs).node? p = some .directory ↔ fs.node? p = some .directory) := by
  by_cases hp : p = []
  · rw [hp]
    exact ⟨Iff.rfl, Iff.rfl⟩
  have hkind (l : Option OpenLog) (n : Node) :
      withLog { fs with log := l } p n = .directory ↔ n = .directory :=
    withLog_eq_iff l p fun bytes heq => nomatch heq
  rw [node?_of_ne_nil hp, node?_of_ne_nil hp]
  show (((fs.nodes.lookup p).map (withLog { fs with log := fs.log.map fun l => l.take log } p)) = none ↔
      _) ∧ _
  cases fs.nodes.lookup p with
  | none => exact ⟨Iff.rfl, Iff.rfl⟩
  | some n =>
    simp only [Option.map_some, Option.some.injEq, reduceCtorEq, true_and]
    exact (hkind _ n).trans (hkind fs.log n).symm

/-! ### Where paths lead -/

/-- The same places hold directories, in the same working directory, and places that held nothing may
only come to hold what is no directory. -/
def Stay (fs fs' : Files) : Prop :=
  fs'.home = fs.home ∧ ∀ p, fs.node? p = some .directory → fs'.node? p = some .directory

theorem Stay.refl (fs : Files) : Stay fs fs := ⟨rfl, fun _ h => h⟩

theorem Stay.trans {fs fs' fs'' : Files} (h : Stay fs fs') (h' : Stay fs' fs'') : Stay fs fs'' :=
  ⟨h'.1.trans h.1, fun p hp => h'.2 p (h.2 p hp)⟩

theorem stay_setNode {p : Place} (n : Node) (h : fs.node? p ≠ some .directory) :
    Stay fs (fs.setNode p n) := by
  refine ⟨rfl, fun q hq => ?_⟩
  have hne : q ≠ p := by
    rintro rfl
    exact h hq
  rw [node?_setNode_of_ne hne]
  exact hq

theorem stay_dropNode {p : Place} (h : fs.node? p ≠ some .directory) : Stay fs (fs.dropNode p) := by
  refine ⟨rfl, fun q hq => ?_⟩
  have hne : q ≠ p := by
    rintro rfl
    exact h hq
  rw [node?_dropNode_of_ne hne]
  exact hq

theorem stay_keep (log : Log) (fs : Files) : Stay fs (LogKeeper.keep log fs) :=
  ⟨rfl, fun p hp => ((node?_keep_directory log p).2).mpr hp⟩

/-- Names lead to the same place as long as the directories stay. -/
theorem follow_of_stay {fs' : Files} (h : Stay fs fs') {p q : Place} {names : List Text}
    (hf : fs.follow p names = .ok q) : fs'.follow p names = .ok q := by
  -- Each name is looked up in a directory, which is one in both.
  induction names generalizing p with
  | nil => exact hf
  | cons name names ih =>
    rw [follow] at hf ⊢
    cases hn : fs.node? p with
    | none => simp [hn] at hf
    | some n =>
      cases n with
      | file bytes => simp [hn] at hf
      | table rows => simp [hn] at hf
      | directory =>
        simp only [hn] at hf
        simp only [h.2 p hn]
        split_ifs at hf ⊢ with h1 h2 h3
        · exact ih hf
        · exact ih hf
        · exact ih hf

/-- A path leads to the same place as long as the directories stay. -/
theorem place_of_stay {fs' : Files} (h : Stay fs fs') {path : Path} {q : Place}
    (hp : fs.place path = .ok q) : fs'.place path = .ok q := by
  unfold place at hp ⊢
  split_ifs at hp ⊢ with h1 h2
  · exact follow_of_stay h hp
  · rw [h.1]
    exact follow_of_stay h hp

/-- Where names lead, or why they lead nowhere, depends on which places hold directories and which hold
nothing. -/
theorem follow_congr {fs' : Files} (h : ∀ p, (fs'.node? p = none ↔ fs.node? p = none) ∧
      (fs'.node? p = some .directory ↔ fs.node? p = some .directory)) (p : Place) (names : List Text) :
    fs'.follow p names = fs.follow p names := by
  induction names generalizing p with
  | nil => rfl
  | cons name names ih =>
    obtain ⟨hnone, hdir⟩ := h p
    rw [follow, follow]
    cases hn : fs.node? p with
    | none => rw [hnone.mpr hn]
    | some n =>
      cases hn' : fs'.node? p with
      | none =>
        rw [hnone.mp hn'] at hn
        cases hn
      | some n' =>
        by_cases hd : n = .directory
        · rw [hd] at hn
          have hd' := hdir.mpr hn
          rw [hn'] at hd'
          obtain rfl := Option.some.inj hd'
          rw [hd]
          simp only [ih]
        · -- Neither is a directory, and names do not lead through it.
          have hd' : n' ≠ .directory := by
            rintro rfl
            have := hdir.mp hn'
            rw [hn] at this
            exact hd (Option.some.inj this)
          cases n with
          | directory => exact absurd rfl hd
          | file bytes => cases n' <;> first | rfl | exact absurd rfl hd'
          | table rows => cases n' <;> first | rfl | exact absurd rfl hd'

theorem place_keep (log : Log) (path : Path) :
    (LogKeeper.keep log fs : Files).place path = fs.place path := by
  unfold place
  rw [follow_congr (node?_keep_directory log)]
  rfl

/-! ### What a path leads to -/

theorem nodeAt_eq_ok {path : Path} {n : Node} :
    fs.nodeAt path = .ok n ↔ ∃ q, fs.place path = .ok q ∧ fs.node? q = some n := by
  unfold nodeAt
  cases fs.place path with
  | error r => simp
  | ok q => cases hn : fs.node? q <;> simp [hn]

/-! ### The bytes that a path leads to -/

/-- A path leads to the bytes of the file at its place. -/
theorem readBytes_of_node {path : Path} {q : Place} {bytes : Bytes} (hp : fs.place path = .ok q)
    (hn : fs.node? q = some (.file bytes)) : fs.readBytes path = .ok bytes := by
  unfold readBytes nodeAt
  rw [hp]
  simp only [hn]

/-- Bytes are read at a place, where there is no directory. -/
theorem place_of_readBytes {path : Path} {bytes : Bytes} (h : fs.readBytes path = .ok bytes) :
    ∃ q, fs.place path = .ok q ∧ q ≠ [] ∧ ∃ n, fs.node? q = some n ∧ n ≠ .directory := by
  unfold readBytes nodeAt at h
  cases hp : fs.place path with
  | error r => simp [hp] at h
  | ok q =>
    cases hn : fs.node? q with
    | none => simp [hp, hn] at h
    | some n =>
      have hd : n ≠ .directory := by
        rintro rfl
        simp [hp, hn] at h
      refine ⟨q, rfl, ?_, n, hn, hd⟩
      rintro rfl
      rw [node?_root] at hn
      exact hd (Option.some.inj hn).symm

/-- Records that are made leave a file alone unless the log is open on it. -/
theorem readBytes_keep (log : Log) {path : Path}
    (h : ∀ q, fs.place path = .ok q → fs.NoLogAt q) :
    (LogKeeper.keep log fs : Files).readBytes path = fs.readBytes path := by
  unfold readBytes nodeAt
  rw [place_keep]
  cases hp : fs.place path with
  | error r => rfl
  | ok q => simp only [node?_keep log (h q hp)]

/-- A file stays readable when records are made. -/
theorem readBytes_keep_ok (log : Log) {path : Path} {bytes : Bytes} (h : fs.readBytes path = .ok bytes) :
    ∃ bytes', (LogKeeper.keep log fs : Files).readBytes path = .ok bytes' := by
  obtain ⟨q, hp, -, n, hn, hd⟩ := place_of_readBytes h
  obtain ⟨hnone, hdir⟩ := node?_keep_directory log q
  unfold readBytes nodeAt
  rw [place_keep, hp]
  cases hn' : (LogKeeper.keep log fs : Files).node? q with
  | none =>
    rw [hnone.mp hn'] at hn
    cases hn
  | some n' =>
    cases n' with
    | file bytes' => exact ⟨bytes', by simp only [hn']⟩
    | table rows => exact ⟨ProcessedRow.tableBytes rows, by simp only [hn']⟩
    | directory =>
      rw [hdir.mp hn'] at hn
      exact absurd (Option.some.inj hn).symm hd

/-! ### Rows of tables -/

/-- The rows of all tables. -/
def rows (fs : Files) : List ProcessedRow := fs.nodes.flatMap fun entry => entry.2.rows

theorem mem_rows_of_node? {p : Place} {rs : List ProcessedRow} (h : fs.node? p = some (.table rs)) :
    rs ⊆ fs.rows := by
  by_cases hp : p = []
  · rw [hp] at h
    cases h
  rw [node?_of_ne_nil hp] at h
  obtain ⟨n, hn, hw⟩ := Option.map_eq_some_iff.mp h
  have hrows : n = .table rs := by
    unfold withLog at hw
    cases hl : fs.log with
    | none => simpa [hl] using hw
    | some l =>
      cases n with
      | file bytes =>
        simp only [hl] at hw
        split_ifs at hw
      | directory => simp [hl] at hw
      | table rs' => simpa [hl] using hw
  subst hrows
  intro row hrow
  obtain ⟨l₁, l₂, hl, -⟩ := List.lookup_eq_some_iff.mp hn
  exact List.mem_flatMap.mpr ⟨(p, .table rs), by rw [hl]; simp, hrow⟩

theorem rows_filter (fs : Files) (f : Place × Node → Bool) (log : Option OpenLog) :
    rows { fs with nodes := fs.nodes.filter f, log := log } ⊆ fs.rows := by
  intro row hrow
  obtain ⟨entry, hm, hr⟩ := List.mem_flatMap.mp hrow
  exact List.mem_flatMap.mpr ⟨entry, (List.mem_filter.mp hm).1, hr⟩

theorem rows_dropNode (fs : Files) (p : Place) : (fs.dropNode p).rows ⊆ fs.rows :=
  rows_filter fs _ _

/-- Putting something at a place brings in no rows but its own. -/
theorem rows_setNode (fs : Files) (p : Place) (n : Node) :
    ∀ row ∈ (fs.setNode p n).rows, row ∈ fs.rows ∨ row ∈ n.rows := by
  intro row hrow
  have hmem : row ∈ ((fs.nodes.filter fun entry => entry.1 ≠ p) ++ [(p, n)]).flatMap
      fun entry => entry.2.rows := hrow
  rw [List.flatMap_append, List.mem_append] at hmem
  rcases hmem with hmem | hmem
  · exact Or.inl (rows_filter fs _ fs.log hmem)
  · exact Or.inr (by simpa using hmem)

/-- A file that holds bytes has no rows. -/
theorem rows_setNode_file (fs : Files) (p : Place) (bytes : Bytes) :
    (fs.setNode p (.file bytes)).rows ⊆ fs.rows := by
  intro row hrow
  rcases rows_setNode fs p (.file bytes) row hrow with hold | hnew
  · exact hold
  · cases hnew

theorem mem_rows_setNode (fs : Files) (p : Place) {n : Node} {row : ProcessedRow} (h : row ∈ n.rows) :
    row ∈ (fs.setNode p n).rows :=
  List.mem_flatMap.mpr ⟨(p, n), List.mem_append_right _ (List.mem_singleton_self _), h⟩

end Files

end TitleClasses
