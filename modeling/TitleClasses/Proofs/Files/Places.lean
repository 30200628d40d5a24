import Mathlib.Data.Nat.Digits.Lemmas
import Mathlib.Data.Set.Basic
import TitleClasses.Files.Tree

/-!
# Where names lead, by the names alone

The place that a path leads to, if it leads anywhere, is told by its names alone (`place_eq_resolve`):
without links, each name of two dots takes the one before it away. So paths that are resolved differently
lead to different places, and the temporary files beside them are at different places too
(`resolve_of_temporary`), none of which is the place of the path itself (`place_ne_temporary`). The text of
a resolved path tells it as long as no name holds a slash (`resolve_of_toText`).
-/

namespace TitleClasses

/-- What is between the occurrences of a code point does not hold it. -/
theorem Text.notMem_of_mem_splitAt {c : CodePoint} {t part : Text} (h : part ∈ t.splitAt c) :
    c ∉ part := by
  induction t generalizing part with
  | nil =>
    rw [List.mem_singleton.mp h]
    exact List.not_mem_nil
  | cons d r ih =>
    rw [splitAt] at h
    split at h
    · rcases List.mem_cons.mp h with rfl | hr
      · exact List.not_mem_nil
      · exact ih hr
    next hd =>
      -- The first code point stands before the first part of the rest.
      have hfirst {p : Text} (hp : c ∉ p) : c ∉ d :: p := fun hmem =>
        (List.mem_cons.mp hmem).elim (fun heq => hd heq.symm) hp
      split at h
      · rw [List.mem_singleton.mp h]
        exact hfirst List.not_mem_nil
      next p ps hparts =>
        rw [hparts] at ih
        rcases List.mem_cons.mp h with rfl | hps
        · exact hfirst (ih List.mem_cons_self)
        · exact ih (List.mem_cons_of_mem p hps)

namespace Path

/-- The names that are left when one more is followed. -/
def goOn (done : List Text) (name : Text) : List Text :=
  if name = up then done.dropLast else done ++ [name]

theorem collapse_append (names more : List Text) :
    collapse (names ++ more) = more.foldl goOn (collapse names) :=
  List.foldl_append ..

theorem goOn_of_ne {name : Text} (h : name ≠ up) (done : List Text) : goOn done name = done ++ [name] :=
  if_neg h

/-- Names that do not lead up are all left. -/
theorem foldl_goOn {names : List Text} (h : up ∉ names) (done : List Text) :
    names.foldl goOn done = done ++ names := by
  induction names generalizing done with
  | nil => exact (List.append_nil done).symm
  | cons name names ih =>
    have hname : name ≠ up := fun heq => h (heq ▸ List.mem_cons_self)
    rw [List.foldl_cons, goOn_of_ne hname, ih fun hmem => h (List.mem_cons_of_mem _ hmem),
      List.append_assoc]
    rfl

/-- What is left are names that were there and do not lead up. -/
theorem mem_foldl_goOn {names done : List Text} {name : Text} (h : name ∈ names.foldl goOn done) :
    name ∈ done ∨ name ∈ names ∧ name ≠ up := by
  induction names generalizing done with
  | nil => exact Or.inl h
  | cons first names ih =>
    rcases ih h with hdone | ⟨hnames, hup⟩
    · unfold goOn at hdone
      split at hdone
      · exact Or.inl (List.dropLast_subset _ hdone)
      · rename_i hfirst
        rcases List.mem_append.mp hdone with hdone | hlast
        · exact Or.inl hdone
        · obtain rfl := List.mem_singleton.mp hlast
          exact Or.inr ⟨List.mem_cons_self, hfirst⟩
    · exact Or.inr ⟨List.mem_cons_of_mem _ hnames, hup⟩

/-- Whether every name of a path says something, as in every path that a text names. -/
def Plain (p : Path) : Prop := ∀ name ∈ p.names, isIdle name = false

/-- Following all names of a path is following those of its directory and then its own, if it has one. -/
theorem foldl_names {p : Path} (h : p.Plain) (done : List Text) :
    p.names.foldl goOn done = if p.name = [] then p.names.dropLast.foldl goOn done
      else goOn (p.names.dropLast.foldl goOn done) p.name := by
  unfold name
  rcases List.eq_nil_or_concat p.names with hnil | ⟨names, last, hnames⟩
  · rw [hnil]
    rfl
  · rw [List.concat_eq_append] at hnames
    have hlast : last ≠ [] := by
      rintro rfl
      exact absurd (h [] (hnames ▸ List.mem_append_right _ (List.mem_singleton_self _))) (by decide)
    rw [hnames, List.getLast?_concat, List.dropLast_concat, List.foldl_append, Option.getD_some,
      if_neg hlast]
    rfl

theorem plain_ofText (t : Text) : (ofText t).Plain := by
  intro name hname
  simpa using (List.mem_filter.mp hname).2

/-- Whether no name holds a slash, as no name of a file does. -/
def Unslashed (names : List Text) : Prop := ∀ name ∈ names, slash ∉ name

theorem unslashed_ofText (t : Text) : Unslashed (ofText t).names :=
  fun _ hname => Text.notMem_of_mem_splitAt (List.mem_filter.mp hname).1

end Path

namespace Files

open TitleClasses.Path (goOn collapse up isIdle)

variable {fs : Files} {path path' : Path} {p q : Place}

/-- Whether the working directory is told by names that neither say nothing nor lead up. -/
def ProperHome (fs : Files) : Prop := ∀ name ∈ fs.home, isIdle name = false ∧ name ≠ up

/-- The place that names lead to, if they lead anywhere. -/
theorem follow_eq_ok {names : List Text} (h : fs.follow p names = .ok q) :
    q = (names.filter fun name => !isIdle name).foldl goOn p := by
  induction names generalizing p with
  | nil => exact (Except.ok.inj h).symm
  | cons name names ih =>
    rw [follow] at h
    split at h
    · cases h
    · split at h
      · rename_i hidle
        rw [List.filter_cons_of_neg (by simp [hidle])]
        exact ih h
      · rename_i hidle
        rw [List.filter_cons_of_pos (by simp [hidle]), List.foldl_cons]
        split at h
        · rename_i hup
          rw [goOn, if_pos hup]
          exact ih h
        · rename_i hup
          split at h
          · cases h
          · rw [goOn, if_neg hup]
            exact ih h
    · cases h

/-- The names from which the names of a path are followed. -/
def base (fs : Files) (path : Path) : Place := if path.isAbsolute then [] else fs.home

theorem absolute_names (fs : Files) (path : Path) :
    (fs.absolute path).names = path.names.foldl goOn (collapse (fs.base path)) := by
  rw [← Path.collapse_append]
  unfold absolute base
  cases path.isAbsolute <;> rfl

theorem collapse_base (h : fs.ProperHome) (path : Path) : collapse (fs.base path) = fs.base path := by
  have hup : up ∉ fs.base path := by
    unfold base
    split
    · exact List.not_mem_nil
    · exact fun hmem => (h up hmem).2 rfl
  exact Path.foldl_goOn hup []

/-- The place of a path is told by its names. -/
theorem place_eq_resolve (hhome : fs.ProperHome) (hplain : path.Plain) (h : fs.place path = .ok q) :
    q = (fs.resolve path).names := by
  have hfilter : path.names.filter (fun name => !isIdle name) = path.names :=
    List.filter_eq_self.mpr fun name hname => by rw [hplain name hname]; rfl
  show q = (fs.absolute path).names
  rw [absolute_names, collapse_base hhome]
  unfold place at h
  split at h
  · cases h
  · rw [follow_eq_ok h, hfilter]
    rfl

/-- Names that say something and hold no slashes are told by their path. -/
theorem eq_of_pathOf (hp : Path.Unslashed p) (hq : Path.Unslashed q) (hp' : [] ∉ p) (hq' : [] ∉ q)
    (h : (pathOf p).toText = (pathOf q).toText) : p = q := by
  have hjoined : Text.join [slash] p = Text.join [slash] q := List.append_cancel_left h
  -- Where there are no names, the one part of the text would be an empty name.
  have hparts {names : List Text} (hnames : Path.Unslashed names) :
      (Text.join [slash] names).splitOn slash = if names = [] then [[]] else names := by
    split
    next hnil =>
      rw [hnil]
      rfl
    next hne => exact List.splitOn_intercalate slash hnames hne
  have hsame := (hparts hp).symm.trans ((congrArg (List.splitOn slash) hjoined).trans (hparts hq))
  split at hsame <;> split at hsame
  · next hpnil hqnil => rw [hpnil, hqnil]
  · exact absurd (hsame ▸ List.mem_singleton_self _) hq'
  · exact absurd (hsame ▸ List.mem_singleton_self _) hp'
  · exact hsame

/-- Paths of names without slashes that have one absolute text are one when they are resolved. -/
theorem resolve_of_toText (hhome : fs.ProperHome) (hslashes : Path.Unslashed fs.home)
    (hplain : path.Plain) (hplain' : path'.Plain) (hnames : Path.Unslashed path.names)
    (hnames' : Path.Unslashed path'.names)
    (h : (fs.resolve path).toText = (fs.resolve path').toText) : fs.resolve path = fs.resolve path' := by
  have hproper {path : Path} (hplain : path.Plain) (hnames : Path.Unslashed path.names) :
      Path.Unslashed (fs.absolute path).names ∧ [] ∉ (fs.absolute path).names := by
    have hmem (name : Text) (hname : name ∈ (fs.absolute path).names) :
        slash ∉ name ∧ isIdle name = false := by
      rw [absolute_names, collapse_base hhome] at hname
      rcases Path.mem_foldl_goOn hname with hbase | ⟨hin, -⟩
      · unfold base at hbase
        split at hbase
        · cases hbase
        · exact ⟨hslashes name hbase, (hhome name hbase).1⟩
      · exact ⟨hnames name hin, hplain name hin⟩
    exact ⟨fun name hname => (hmem name hname).1, fun hempty => nomatch (hmem [] hempty).2⟩
  obtain ⟨hslash, hempty⟩ := hproper hplain hnames
  obtain ⟨hslash', hempty'⟩ := hproper hplain' hnames'
  exact congrArg pathOf (eq_of_pathOf hslash hslash' hempty hempty' h)

/-! ### Temporary files -/

/-- The places where a temporary file can be made for a path. -/
def temporaryPlaces (fs : Files) (path : Path) : Set Place :=
  {q | ∃ n < temporaryTries, fs.place (fs.temporaryPath path n) = .ok q}

/-- The place that was found for a temporary file is where one of the paths leads that were tried, and
nothing stands there. -/
theorem freeTemporary_ok {path t : Path} {q : Place} {tries n : Nat}
    (h : fs.freeTemporary path tries n = .ok (t, q)) :
    (∃ m < n + tries, t = fs.temporaryPath path m) ∧ fs.place t = .ok q ∧ fs.node? q = none := by
  induction tries generalizing n with
  | zero => cases h
  | succ tries ih =>
    rw [freeTemporary] at h
    cases hp : fs.place (fs.temporaryPath path n) with
    | error r => simp [hp] at h
    | ok q' =>
      cases hn : fs.node? q' with
      | some _ =>
        simp only [hp, hn] at h
        obtain ⟨⟨m, hm, ht⟩, hfree⟩ := ih h
        exact ⟨⟨m, by omega, ht⟩, hfree⟩
      | none =>
        simp only [hp, hn, Except.ok.injEq, Prod.mk.injEq] at h
        obtain ⟨rfl, rfl⟩ := h
        exact ⟨⟨n, by omega, rfl⟩, hp, hn⟩

theorem mem_temporaryPlaces {t : Path} (h : fs.freeTemporary path temporaryTries 0 = .ok (t, q)) :
    q ∈ fs.temporaryPlaces path := by
  obtain ⟨⟨m, hm, rfl⟩, hp, -⟩ := freeTemporary_ok h
  exact ⟨m, by omega, hp⟩

theorem length_temporaryName (name : Text) {n : Nat} (h : n < temporaryTries) :
    (temporaryName name n).length = name.length + 10 := by
  have hdigits : (Nat.toDigits 10 n).length ≤ 5 :=
    Nat.toDigits_length 10 n 5 (by decide) (Nat.lt_trans h (by decide))
  have hpadded : (Text.padded 10 5 n).length = 5 := by
    unfold Text.padded
    rw [List.length_append, List.length_replicate, List.length_map]
    omega
  unfold temporaryName Text.concat
  simp only [List.flatten_cons, List.flatten_nil, List.length_append, List.length_nil, hpadded]
  show 1 + (name.length + (4 + _)) = _
  omega

/-- A temporary file tells the name of its file. -/
theorem temporaryName_injective {name name' : Text} {n n' : Nat} (hn : n < temporaryTries)
    (hn' : n' < temporaryTries) (h : temporaryName name n = temporaryName name' n') : name = name' := by
  have hlength : name.length = name'.length := by
    have := congrArg List.length h
    rw [length_temporaryName name hn, length_temporaryName name' hn'] at this
    omega
  unfold temporaryName Text.concat at h
  exact List.append_inj_left (List.append_cancel_left h) hlength

/-- The name of a temporary file says something, and does not lead up. -/
theorem proper_temporaryName (name : Text) {n : Nat} (h : n < temporaryTries) :
    isIdle (temporaryName name n) = false ∧ temporaryName name n ≠ up := by
  have hlong : 10 ≤ (temporaryName name n).length := by
    rw [length_temporaryName name h]
    omega
  unfold isIdle
  refine ⟨?_, ?_⟩
  · rw [Bool.or_eq_false_iff, List.isEmpty_eq_false_iff, decide_eq_false_iff_not]
    refine ⟨?_, ?_⟩ <;> intro heq <;> rw [heq] at hlong <;> revert hlong <;> decide
  · intro heq
    rw [heq] at hlong
    revert hlong
    decide

/-- A temporary file is beside the path, in the directory that its names tell. -/
theorem place_temporary (hhome : fs.ProperHome) (hplain : path.Plain) {n : Nat}
    (hn : n < temporaryTries) (h : fs.place (fs.temporaryPath path n) = .ok q) :
    q = path.names.dropLast.foldl goOn (fs.base path) ++ [temporaryName path.name n] := by
  obtain ⟨hidle, hup⟩ := proper_temporaryName path.name hn
  have hnames : (fs.temporaryPath path n).names =
      path.names.dropLast.foldl goOn (fs.base path) ++ [temporaryName path.name n] := by
    show (fs.absolute path.parent).names ++ _ = _
    rw [absolute_names, show fs.base path.parent = fs.base path from rfl, collapse_base hhome]
    rfl
  -- The directory has only names that were in the path or lead to the working directory.
  have hproper : ∀ name ∈ (fs.temporaryPath path n).names, isIdle name = false ∧ name ≠ up := by
    intro name hname
    rw [hnames] at hname
    rcases List.mem_append.mp hname with hdir | hlast
    · rcases Path.mem_foldl_goOn hdir with hbase | ⟨hin, hne⟩
      · unfold base at hbase
        split at hbase
        · cases hbase
        · exact hhome name hbase
      · exact ⟨hplain name (List.dropLast_subset _ hin), hne⟩
    · rw [List.mem_singleton.mp hlast]
      exact ⟨hidle, hup⟩
  have habsolute : (fs.temporaryPath path n).isAbsolute = true := by
    show (!(fs.absolute path.parent).root.isEmpty) = true
    unfold absolute
    cases hroot : path.parent.isAbsolute with
    | false => rfl
    | true => exact hroot
  unfold place at h
  split at h
  · cases h
  · have hfilter : (fs.temporaryPath path n).names.filter (fun name => !isIdle name) =
        (fs.temporaryPath path n).names :=
      List.filter_eq_self.mpr fun name hname => by rw [(hproper name hname).1]; rfl
    rw [follow_eq_ok h, hfilter, Path.foldl_goOn fun hmem => (hproper up hmem).2 rfl, hnames]
    rfl

/-- A path is not at the place of a temporary file beside it. -/
theorem place_ne_temporary (hhome : fs.ProperHome) (hplain : path.Plain)
    (h : fs.place path = .ok p) (hq : q ∈ fs.temporaryPlaces path) : p ≠ q := by
  obtain ⟨n, hn, hplace⟩ := hq
  have hlength := length_temporaryName path.name hn
  have hp := place_eq_resolve hhome hplain h
  change p = (fs.absolute path).names at hp
  rw [absolute_names, collapse_base hhome, Path.foldl_names hplain] at hp
  rw [hp, place_temporary hhome hplain hn hplace]
  intro heq
  unfold goOn at heq
  split at heq
  · simpa using congrArg List.length heq
  · split at heq
    · simpa using congrArg List.length heq
    · have hsame := List.singleton_inj.mp (List.append_cancel_left heq)
      rw [← hsame] at hlength
      omega

/-- Temporary files of paths that are resolved differently are at different places. -/
theorem resolve_of_temporary (hhome : fs.ProperHome) (hplain : path.Plain) (hplain' : path'.Plain)
    (hq : q ∈ fs.temporaryPlaces path) (hq' : q ∈ fs.temporaryPlaces path') :
    fs.resolve path = fs.resolve path' := by
  obtain ⟨n, hn, hplace⟩ := hq
  obtain ⟨n', hn', hplace'⟩ := hq'
  have hsame := (place_temporary hhome hplain hn hplace).symm.trans
    (place_temporary hhome hplain' hn' hplace')
  obtain ⟨hdir, hlast⟩ := List.append_inj' hsame rfl
  have hname := temporaryName_injective hn hn' (List.singleton_inj.mp hlast)
  unfold resolve
  rw [absolute_names, absolute_names, collapse_base hhome, collapse_base hhome,
    Path.foldl_names hplain, Path.foldl_names hplain', hdir, hname]

end Files

end TitleClasses
