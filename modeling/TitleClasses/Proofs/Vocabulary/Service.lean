import TitleClasses.Proofs.Assignment.Desk
import TitleClasses.Proofs.Vocabulary.Content

/-!
# What is visible of a vocabulary file

While the file at a path changes in any way, it is loaded again and again, or questions are asked about
its vocabularies. What is visible then is the content that the file had when it was last loaded
(`Visible`): by the last loading that was asked for and had something to load, or by the first question
that had, as long as there was no such loading. `VocabularyFile.visible_after` says that the service holds
exactly that after any course of events, and what the next loading or question does.
-/

namespace TitleClasses.VocabularyFile

/-! ### Questions -/

/-- A question about the vocabularies of a file. -/
inductive Question where
  | names
  | vocabulary (name : Json)
  | records (name : Json)
  | digest (name : Json)

/-- The answer to a question. -/
inductive Reply where
  | names (names : List Json)
  | vocabulary (v : Vocabulary)
  | records (records : List Record)
  | digest (t : Text)

namespace Question

/-- The answer that a catalogue gives. -/
def reply (c : Catalogue) : Question → Except Fault Reply
  | names => c.sortedKeys.map .names
  | vocabulary name => (c.find name).map .vocabulary
  | records name => (c.find name).map fun v => .records v.records
  | digest name => (c.find name).map fun v => .digest v.digest

/-- Asks the question of a file. -/
def ask (fs : Files) : Question → Action VocabularyFile Reply
  | names => do pure (.names (← VocabularyFile.names fs))
  | vocabulary name => do pure (.vocabulary (← find fs name))
  | records name => do pure (.records (← VocabularyFile.records fs name))
  | digest name => do pure (.digest (← VocabularyFile.digest fs name))

/-- What is made of an answer of the catalogue is an answer of the catalogue. -/
theorem run_catalogue_map {α β : Type} (fs : Files) (f : VocabularyFile)
    (answer : Catalogue → Except Fault α) (make : α → β) :
    ((catalogue fs >>= fun c => Action.ofExcept (answer c)) >>= fun x => pure (make x)).run f =
      (catalogue fs >>= fun c => Action.ofExcept ((answer c).map make)).run f := by
  rw [Action.run_map]
  rcases hc : ((catalogue fs).run f).result with e | c
  · rw [Action.run_bind_error hc, Action.run_bind_error hc]
    rfl
  · rw [Action.run_bind_ok hc, Action.run_bind_ok hc, Action.run_ofExcept, Action.run_ofExcept]

/-- A question asks for the catalogue, and has the answer that the catalogue gives. -/
theorem ask_run (fs : Files) (q : Question) (f : VocabularyFile) :
    (q.ask fs).run f = (catalogue fs >>= fun c => Action.ofExcept (q.reply c)).run f := by
  have hmap {α β γ : Type} (x : Except Fault α) (g : α → β) (h : β → γ) :
      (x.map g).map h = x.map fun y => h (g y) := by cases x <;> rfl
  cases q with
  | names => exact run_catalogue_map fs f Keyed.sortedKeys Reply.names
  | vocabulary name => exact run_catalogue_map fs f (·.find name) Reply.vocabulary
  | records name =>
    have hrecords := run_catalogue_map fs f (·.find name) Vocabulary.records
    refine (Action.run_bind_congr hrecords _).trans ?_
    rw [run_catalogue_map]
    simp only [hmap, reply]
  | digest name =>
    have hdigest := run_catalogue_map fs f (·.find name) Vocabulary.digest
    refine (Action.run_bind_congr hdigest _).trans ?_
    rw [run_catalogue_map]
    simp only [hmap, reply]

/-- A loaded catalogue answers, and nothing changes. -/
theorem ask_loaded {f : VocabularyFile} {c : Catalogue} (h : f.loaded = some c) (fs : Files)
    (q : Question) :
    let o := (q.ask fs).run f
    o.result = q.reply c ∧ o.state = f := by
  have hresult : ((catalogue fs).run f).result = .ok c := by rw [catalogue_loaded h]
  rw [ask_run, Action.run_bind_ok hresult, catalogue_loaded h, Action.run_ofExcept]
  exact ⟨rfl, rfl⟩

/-- As long as nothing is loaded the file is loaded first. -/
theorem ask_unloaded (fs : Files) (path : Path) (q : Question) :
    let o := (q.ask fs).run ⟨path, none⟩
    (∃ c, Content fs path c ∧ o.result = q.reply c ∧ o.state = ⟨path, some c⟩) ∨
      (¬ ∃ c, Content fs path c) ∧
        ∃ f, ((reload fs).run ⟨path, none⟩).result = .error f ∧ o.result = .error f ∧
          o.state = ⟨path, none⟩ := by
  rw [ask_run]
  rcases reload_content fs path none with ⟨c, hcontent, hresult, hstate⟩ | ⟨hnone, f, hresult, hstate⟩
  · refine .inl ⟨c, hcontent, ?_⟩
    have hc : ((catalogue fs).run ⟨path, none⟩).result = .ok c ∧
        ((catalogue fs).run ⟨path, none⟩).state = ⟨path, some c⟩ := by
      rw [catalogue_unloaded, Action.run_bind_ok hresult, hstate]
      exact ⟨rfl, rfl⟩
    rw [Action.run_bind_ok hc.1, hc.2, Action.run_ofExcept]
    exact ⟨rfl, rfl⟩
  · refine .inr ⟨hnone, f, hresult, ?_⟩
    have hc : ((catalogue fs).run ⟨path, none⟩).result = .error f ∧
        ((catalogue fs).run ⟨path, none⟩).state = ⟨path, none⟩ := by
      rw [catalogue_unloaded, Action.run_bind_error hresult, hstate]
      exact ⟨rfl, rfl⟩
    rw [Action.run_bind_error hc.1, hc.2]
    exact ⟨rfl, rfl⟩

end Question

/-! ### Courses of events -/

/-- What may happen: the files change in any way, the file is to be loaded, or a question is asked. -/
inductive Event where
  | edit (fs : Files)
  | reload
  | ask (q : Question)

/-- The files at some moment, and what was loaded of them. -/
structure Moment where
  files : Files
  file : VocabularyFile

namespace Event

/-- Whether the service is called. -/
def IsCall : Event → Prop
  | edit _ => False
  | reload => True
  | ask _ => True

/-- The moment after an event. -/
def effect (m : Moment) : Event → Moment
  | edit fs => { m with files := fs }
  | reload => { m with file := ((VocabularyFile.reload m.files).run m.file).state }
  | ask q => { m with file := ((q.ask m.files).run m.file).state }

end Event

/-- The moment after some events, at the beginning of which nothing was loaded. -/
def after (fs : Files) (path : Path) (events : List Event) : Moment :=
  events.foldl Event.effect ⟨fs, ⟨path, none⟩⟩

variable {fs : Files} {path : Path}

theorem after_concat (fs : Files) (path : Path) (events : List Event) (e : Event) :
    after fs path (events ++ [e]) = e.effect (after fs path events) := by
  unfold after
  rw [List.foldl_append]
  rfl

/-- Whether there was something to load at the end of some events. -/
def CanLoad (fs : Files) (path : Path) (events : List Event) : Prop :=
  ∃ c, Content (after fs path events).files path c

/-- Whether some call has found something to load. -/
def Served (fs : Files) (path : Path) (events : List Event) : Prop :=
  ∃ before e later, events = before ++ e :: later ∧ e.IsCall ∧ CanLoad fs path before

/-- Whether an event after some others loads: it asks for that, or is the first call that finds something
to load. -/
def Event.Loads (fs : Files) (path : Path) (before : List Event) (e : Event) : Prop :=
  CanLoad fs path before ∧ (e = .reload ∨ e.IsCall ∧ ¬ Served fs path before)

/-- What is visible after some events: the content of the file as it was at the last event that loads, and
nothing at all if there was none. -/
def Visible (fs : Files) (path : Path) (events : List Event) : Option Catalogue → Prop
  | none => ∀ before e later, events = before ++ e :: later → ¬ e.Loads fs path before
  | some c => ∃ before e later, events = before ++ e :: later ∧ e.Loads fs path before ∧
      Content (after fs path before).files path c ∧
      ∀ between e' rest, later = between ++ e' :: rest →
        ¬ e'.Loads fs path (before ++ e :: between)

theorem Event.Loads.isCall {before : List Event} {e : Event} (h : e.Loads fs path before) : e.IsCall := by
  obtain ⟨-, rfl | ⟨hcall, -⟩⟩ := h
  · trivial
  · exact hcall

/-- Some call has found something to load exactly when some event has loaded it. -/
theorem served_iff (events : List Event) : Served fs path events ↔
    ∃ before e later, events = before ++ e :: later ∧ e.Loads fs path before := by
  constructor
  · -- The first of the calls that find something loads it.
    induction hn : events.length using Nat.strongRecOn generalizing events with
    | ind n ih =>
      rintro ⟨before, e, later, rfl, hcall, hload⟩
      by_cases hserved : Served fs path before
      · have hlt : before.length < n := by
          rw [← hn, List.length_append, List.length_cons]
          omega
        obtain ⟨first, e', between, rfl, hloads⟩ := ih before.length hlt before rfl hserved
        refine ⟨first, e', between ++ e :: later, ?_, hloads⟩
        rw [List.append_assoc, List.cons_append]
      · exact ⟨before, e, later, rfl, hload, .inr ⟨hcall, hserved⟩⟩
  · rintro ⟨before, e, later, hevents, hloads⟩
    exact ⟨before, e, later, hevents, hloads.isCall, hloads.1⟩

/-- An event of a course that is longer by one is the last one or one of those before. -/
theorem concat_eq_append_cons {events before later : List Event} {e e' : Event}
    (h : events ++ [e] = before ++ e' :: later) : (before = events ∧ e' = e ∧ later = []) ∨
      ∃ rest, later = rest ++ [e] ∧ events = before ++ e' :: rest := by
  rcases List.eq_nil_or_concat later with rfl | ⟨rest, last, rfl⟩
  · obtain ⟨hbefore, hlast⟩ := List.append_inj' h rfl
    exact .inl ⟨hbefore.symm, (List.singleton_inj.mp hlast).symm, rfl⟩
  · rw [List.concat_eq_append, ← List.cons_append, ← List.append_assoc] at h
    obtain ⟨hevents, hlast⟩ := List.append_inj' h rfl
    exact .inr ⟨rest, by rw [List.concat_eq_append, List.singleton_inj.mp hlast], hevents⟩

/-- An event that loads makes the content of the file visible; after any other event what was visible
before still is. -/
theorem visible_concat {events : List Event} {e : Event} {l : Option Catalogue} :
    Visible fs path (events ++ [e]) l ↔
      (e.Loads fs path events ∧ ∃ c, l = some c ∧ Content (after fs path events).files path c) ∨
        ¬ e.Loads fs path events ∧ Visible fs path events l := by
  constructor
  · intro h
    cases l with
    | none =>
      refine .inr ⟨h events e [] rfl, fun before e' later hevents => h before e' (later ++ [e]) ?_⟩
      rw [hevents, List.append_assoc, List.cons_append]
    | some c =>
      obtain ⟨before, first, later, heq, hfirst, hc, hrest⟩ := h
      obtain ⟨rfl, rfl, rfl⟩ | ⟨rest, rfl, rfl⟩ := concat_eq_append_cons heq
      · exact .inl ⟨hfirst, c, rfl, hc⟩
      · refine .inr ⟨hrest rest e [] rfl, before, first, rest, rfl, hfirst, hc, ?_⟩
        intro between e' more hmore
        refine hrest between e' (more ++ [e]) ?_
        rw [hmore, List.append_assoc, List.cons_append]
  · rintro (⟨hloads, c, rfl, hc⟩ | ⟨hnot, h⟩)
    · refine ⟨events, e, [], rfl, hloads, hc, fun between e' rest hnil => ?_⟩
      exact absurd hnil.symm (List.append_ne_nil_of_right_ne_nil _ (List.cons_ne_nil _ _))
    cases l with
    | none =>
      intro before e' later heq
      obtain ⟨rfl, rfl, -⟩ | ⟨rest, -, hevents⟩ := concat_eq_append_cons heq
      · exact hnot
      · exact h before e' rest hevents
    | some c =>
      obtain ⟨before, first, later, rfl, hfirst, hc, hrest⟩ := h
      refine ⟨before, first, later ++ [e], ?_, hfirst, hc, fun between e' rest heq => ?_⟩
      · rw [List.append_assoc, List.cons_append]
      · obtain ⟨rfl, rfl, -⟩ | ⟨rest', -, hlater⟩ := concat_eq_append_cons heq
        · exact hnot
        · exact hrest between e' rest' hlater

/-- Before anything happens nothing is visible. -/
theorem visible_nil {l : Option Catalogue} : Visible fs path [] l ↔ l = none := by
  have hnil (before : List Event) (e : Event) (later : List Event) : [] ≠ before ++ e :: later :=
    (List.append_ne_nil_of_right_ne_nil _ (List.cons_ne_nil _ _)).symm
  cases l with
  | none => exact ⟨fun _ => rfl, fun _ before e later h => absurd h (hnil before e later)⟩
  | some c =>
    refine ⟨?_, (nomatch ·)⟩
    rintro ⟨before, e, later, h, -⟩
    exact absurd h (hnil before e later)

/-- What an event does where what was loaded is what is visible: it loads the content of the file, or
leaves the service as it is. -/
theorem effect_file {events : List Event} {e : Event} {m : Moment} {l : Option Catalogue}
    (hm : after fs path events = m) (hfile : m.file = ⟨path, l⟩) (hl : Visible fs path events l) :
    (e.Loads fs path events ∧ ∃ c, Content m.files path c ∧ (e.effect m).file = ⟨path, some c⟩) ∨
      ¬ e.Loads fs path events ∧ (e.effect m).file = ⟨path, l⟩ := by
  subst hm
  cases e with
  | edit fs' =>
    refine .inr ⟨?_, hfile⟩
    intro h
    exact h.isCall
  | reload =>
    rw [Event.effect, hfile]
    rcases reload_content (after fs path events).files path l with ⟨c, hc, -, hstate⟩ |
      ⟨hnone, -, -, hstate⟩
    · exact .inl ⟨⟨⟨c, hc⟩, .inl rfl⟩, c, hc, hstate⟩
    · exact .inr ⟨fun h => hnone h.1, hstate⟩
  | ask q =>
    rw [Event.effect, hfile]
    cases l with
    | some c =>
      obtain ⟨before, e, later, hevents, hloads, -⟩ := hl
      have hserved : Served fs path events := (served_iff events).mpr ⟨before, e, later, hevents, hloads⟩
      refine .inr ⟨?_, (Question.ask_loaded rfl _ q).2⟩
      rintro ⟨-, h | ⟨-, hnot⟩⟩
      · cases h
      · exact hnot hserved
    | none =>
      have hnot : ¬ Served fs path events := by
        rw [served_iff]
        rintro ⟨before, e, later, hevents, hloads⟩
        exact hl before e later hevents hloads
      rcases Question.ask_unloaded (after fs path events).files path q with ⟨c, hc, -, hstate⟩ |
        ⟨hnone, -, -, -, hstate⟩
      · exact .inl ⟨⟨⟨c, hc⟩, .inr ⟨trivial, hnot⟩⟩, c, hc, hstate⟩
      · exact .inr ⟨fun h => hnone h.1, hstate⟩

/-- What is loaded after any events is what is visible then, and nothing else is. -/
theorem after_file (fs : Files) (path : Path) (events : List Event) :
    ∃ l, (after fs path events).file = ⟨path, l⟩ ∧ ∀ l', Visible fs path events l' ↔ l' = l := by
  induction events using List.reverseRecOn with
  | nil => exact ⟨none, rfl, fun l' => visible_nil⟩
  | append_singleton events e ih =>
    obtain ⟨l, hfile, hl⟩ := ih
    rw [after_concat]
    obtain ⟨hloads, c, hc, heffect⟩ | ⟨hnot, heffect⟩ := effect_file (e := e) rfl hfile ((hl l).mpr rfl)
    · refine ⟨some c, heffect, fun l' => ?_⟩
      rw [visible_concat]
      constructor
      · rintro (⟨-, c', rfl, hc'⟩ | ⟨hnot, -⟩)
        · rw [hc'.unique hc]
        · exact absurd hloads hnot
      · rintro rfl
        exact .inl ⟨hloads, c, rfl, hc⟩
    · refine ⟨l, heffect, fun l' => ?_⟩
      rw [visible_concat, ← hl l']
      constructor
      · rintro (⟨hloads, -⟩ | ⟨-, h⟩)
        · exact absurd hloads hnot
        · exact h
      · exact fun h => .inr ⟨hnot, h⟩

/-- After any events a service holds what is visible, and nothing else. Then loading makes the content of
the file visible or fails and changes nothing, when there is none. A question is answered from what is
visible; if nothing is, it loads first, and fails and changes nothing if that fails. -/
theorem visible_after (fs : Files) (path : Path) (events : List Event) :
    let m := after fs path events
    (∀ l, Visible fs path events l ↔ l = m.file.loaded) ∧
      (let o := (reload m.files).run m.file
      (∃ c, Content m.files path c ∧ o.result = .ok () ∧ o.state.loaded = some c) ∨
        (¬ ∃ c, Content m.files path c) ∧ (∃ f, o.result = .error f) ∧ o.state = m.file) ∧
      ∀ q : Question, let o := (q.ask m.files).run m.file
      (∃ c, m.file.loaded = some c ∧ o.result = q.reply c ∧ o.state = m.file) ∨
        m.file.loaded = none ∧
          ((∃ c, Content m.files path c ∧ o.result = q.reply c ∧ o.state.loaded = some c) ∨
            (¬ ∃ c, Content m.files path c) ∧ (∃ f, o.result = .error f ∧
              ((reload m.files).run m.file).result = .error f) ∧ o.state = m.file) := by
  obtain ⟨l, hfile, hl⟩ := after_file fs path events
  intro m
  have hm : m.file = ⟨path, l⟩ := hfile
  rw [hm]
  refine ⟨hl, ?_, fun q => ?_⟩
  · rcases reload_content m.files path l with ⟨c, hc, hresult, hstate⟩ | ⟨hnone, f, hresult, hstate⟩
    · exact .inl ⟨c, hc, hresult, congrArg VocabularyFile.loaded hstate⟩
    · exact .inr ⟨hnone, ⟨f, hresult⟩, hstate⟩
  cases l with
  | some c => exact .inl ⟨c, rfl, Question.ask_loaded rfl m.files q⟩
  | none =>
    refine .inr ⟨rfl, ?_⟩
    rcases Question.ask_unloaded m.files path q with ⟨c, hc, hresult, hstate⟩ |
      ⟨hnone, f, hreload, hresult, hstate⟩
    · exact .inl ⟨c, hc, hresult, congrArg VocabularyFile.loaded hstate⟩
    · exact .inr ⟨hnone, ⟨f, hresult, hreload⟩, hstate⟩

end TitleClasses.VocabularyFile
