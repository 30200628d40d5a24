import TitleClasses.Proofs.Document.Reach
import TitleClasses.Proofs.Fault
import TitleClasses.Statistics

/-!
# Adding to the statistics

Whether a run can be added to the statistics depends on the bytes in their file and on nothing else
(`Statistics.record_congr`), and adding it touches nothing but that file (`Statistics.record_grown`).
-/

namespace TitleClasses

open Utf8 (Bytes)

namespace Statistics

variable {fs fs' s : Files} {path : Path} {bytes : Bytes} {vocabulary : Json} {run : RunCounts}

/-- The file of a path can be read, and nothing but that file was touched since the files were others. -/
structure Rewritten (path : Path) (fs s : Files) : Prop where
  grown : Files.Grown {q | fs.place path = .ok q ∧ fs.node? q ≠ none} fs s
  readable : ∃ bytes, s.readBytes path = .ok bytes

namespace Rewritten

theorem refl (hread : fs.readBytes path = .ok bytes) : Rewritten path fs fs :=
  ⟨.refl _ fs, bytes, hread⟩

theorem keep (h : Rewritten path fs s) (log : Log) : Rewritten path fs (LogKeeper.keep log s) := by
  obtain ⟨bytes, hread⟩ := h.readable
  exact ⟨h.grown.trans (.keep _ log s), Files.readBytes_keep_ok log hread⟩

/-- The file can be given other bytes. -/
theorem write (h : Rewritten path fs s) (new : Bytes) :
    ∃ filled, s.writeBytes path new = .ok filled ∧ Rewritten path fs filled := by
  obtain ⟨bytes, hread⟩ := h.readable
  obtain ⟨q, hplace, hroot, n, hn, hd⟩ := Files.place_of_readBytes hread
  have hnot : s.node? q ≠ some .directory := by
    rw [hn]
    exact fun heq => hd (Option.some.inj heq)
  have hset : Files.Within {q} s (s.setNode q (.file new)) := .setNode hnot fun heq => nomatch heq
  have hself : (s.setNode q (.file new)).node? q = some (.file new) := Files.node?_setNode_self hroot _
  have hgrown : Files.Grown {q} s (s.setNode q (.file new)) := by
    refine .of_within hset fun p hp => ?_
    rw [Set.mem_singleton_iff.mp hp, hself]
    exact fun heq => nomatch heq
  -- The file was there at first, since nothing has come anywhere else.
  have hthere : q ∈ {q | fs.place path = .ok q ∧ fs.node? q ≠ none} := by
    by_contra hout
    refine hout ⟨h.grown.place_iff.mp hplace, mt (h.grown.absent q hout).mpr ?_⟩
    rw [hn]
    exact fun heq => nomatch heq
  exact ⟨_, Files.writeBytes_of_place new hplace hnot,
    h.grown.trans (hgrown.mono (Set.singleton_subset_iff.mpr hthere)),
    new, Files.readBytes_of_node (hset.place_iff.mpr hplace) hself⟩

end Rewritten

/-- What the statistics are taken to be, from what was read in their file: an empty object if that is no
JSON. -/
def taken : Except Fault Json → Except Fault Json
  | .error (.unreadable (.malformed _ _)) => .ok (.object [])
  | read => read

/-- The statistics that are found are told by what is read in their file. -/
theorem snapshot_run (hread : fs.readBytes path = .ok bytes) :
    ((snapshot path).run fs).result = taken (fs.readJson path) ∧
      Rewritten path fs ((snapshot path).run fs).state := by
  have hsame := Rewritten.refl hread
  unfold snapshot
  rw [Action.run_state_bind]
  rcases hjson : fs.readJson path with f | v
  · cases f with
    | unreadable e =>
      cases e with
      | malformed complaint place =>
        -- An empty object is put into the file, after a warning.
        obtain ⟨filled, hfilled, hrewritten⟩ := (hsame.keep [⟨.warning, .statistics, Text.concat
          ["Stats file was corrupt, resetting ", path.toText]⟩]).write
          (((Json.object []).write .line).flatMap Utf8.encodeOne)
        have hreset : (reset path).run (LogKeeper.keep [⟨.warning, .statistics, Text.concat
            ["Stats file was corrupt, resetting ", path.toText]⟩] fs) = ⟨.ok (), filled, []⟩ := by
          unfold reset
          rw [Action.run_state_bind, hfilled]
          rfl
        have hanswer := congrArg Outcome.result hreset
        dsimp only
        rw [Action.run_note_bind, Action.run_bind_ok hanswer, hreset]
        exact ⟨rfl, hrewritten⟩
      | _ => exact ⟨rfl, hsame⟩
    | _ => exact ⟨rfl, hsame⟩
  · exact ⟨rfl, hsame⟩

/-- Whether a run is added is told by what is read in the file. -/
theorem record_run (hread : fs.readBytes path = .ok bytes) :
    ((record path vocabulary run).run fs).result = ((taken (fs.readJson path)).bind fun found =>
      (add run vocabulary found).bind fun stats =>
        if stats.hasLongNumeral then .error .longNumeral else .ok ()) ∧
      Rewritten path fs ((record path vocabulary run).run fs).state := by
  obtain ⟨hfound, hrewritten⟩ := snapshot_run hread
  unfold record
  rcases htaken : taken (fs.readJson path) with f | found
  · rw [htaken] at hfound
    rw [Action.run_bind_error hfound]
    exact ⟨rfl, hrewritten⟩
  rw [htaken] at hfound
  rw [Action.run_bind_ok hfound]
  rcases hadd : add run vocabulary found with f | stats
  · rw [Action.run_ofExcept_error_bind]
    exact ⟨by simp [Except.bind, hadd], hrewritten⟩
  rw [Action.run_ofExcept_ok_bind]
  cases hlong : stats.hasLongNumeral with
  | true =>
    rw [if_pos rfl]
    exact ⟨by simp [Except.bind, hadd, hlong], hrewritten⟩
  | false =>
    -- Whatever is added, the file can be given its text.
    obtain ⟨filled, hfilled, hdone⟩ :=
      hrewritten.write ((stats.write .statistics).flatMap Utf8.encodeOne)
    rw [if_neg Bool.false_ne_true]
    dsimp only
    rw [Action.run_state_bind, hfilled]
    exact ⟨by simp [Except.bind, hadd, hlong], hdone⟩

/-- Nothing is added to statistics that cannot be read. -/
theorem record_unread {f : Fault} (hread : fs.readBytes path = .error f) :
    (record path vocabulary run).run fs = ⟨.error f, fs, []⟩ := by
  obtain ⟨r, rfl⟩ := Files.refused_of_readBytes hread
  have hsnapshot : (snapshot path).run fs = ⟨.error (.refused r path.toText none), fs, []⟩ := by
    unfold snapshot
    rw [Action.run_state_bind, Files.readJson_of_unread hread]
    rfl
  have hfails := congrArg Outcome.result hsnapshot
  unfold record
  rw [Action.run_bind_error hfails, hsnapshot]

/-- A run that can be added in some files can be added in others with the same statistics. -/
theorem record_congr (hsame : (fs'.readBytes path).toOption = (fs.readBytes path).toOption)
    (h : ((record path vocabulary run).run fs).result = .ok ()) :
    ((record path vocabulary run).run fs').result = .ok () := by
  rcases hread : fs.readBytes path with f | bytes
  · rw [record_unread hread] at h
    cases h
  rcases hread' : fs'.readBytes path with f | bytes'
  · rw [hread, hread'] at hsame
    cases hsame
  rw [hread, hread'] at hsame
  obtain rfl : bytes' = bytes := Option.some.inj hsame
  rw [(record_run hread).1] at h
  rw [(record_run hread').1, Files.readJson_congr (hread'.trans hread.symm), h]

/-- Adding a run touches nothing but the file of the statistics, if it is there. -/
theorem record_grown (path : Path) (vocabulary : Json) (run : RunCounts) (fs : Files) :
    Files.Grown {q | fs.place path = .ok q ∧ fs.node? q ≠ none} fs
      ((record path vocabulary run).run fs).state := by
  rcases hread : fs.readBytes path with f | bytes
  · rw [record_unread hread]
    exact .refl _ fs
  · exact (record_run hread).2.grown

end Statistics

end TitleClasses
