import TitleClasses.Proofs.Document.Faults
import TitleClasses.Proofs.Document.Kept
import TitleClasses.Proofs.Document.Remains
import TitleClasses.Proofs.Json.Characters
import TitleClasses.Proofs.Json.Depth
import TitleClasses.Proofs.Json.Display

/-!
# Documents are read back as they were written

What was written for an element is loaded as that element, with the same children and entries in the same
order, or not at all: that depends on the depth of what was written alone (`load_rendered_iff`). A tree
whose texts hold no half of a surrogate pair has bytes (`Element.encodable_iff`), so it is
written unless the file system refuses it (`write_of_encodable`), and read back; and reading a file and
writing what was read leaves bytes which doing so again does not change (`round_trip`). Trees of any
depth are written, but they are not all read (`not_roundTrips`).
-/

namespace TitleClasses

open Utf8 (Bytes)

/-! ### Loading -/

namespace Files

variable {fs : Files} {path : Path} {style : Json.Style} {v : Json} {bytes : Bytes}

/-- What was written to a file is the text of it. -/
theorem readText_of_write (hr : fs.readBytes path = .ok bytes)
    (he : Utf8.encode (v.write style) = .ok bytes) (hv : Json.Readable style.ascii v) :
    fs.readText path = .ok (v.write style) := by
  obtain ⟨hencodable, rfl⟩ := Utf8.encode_eq_ok_iff.mp he
  rw [readText_of_decode hr (Utf8.decode_bytesOf hencodable),
    Text.unifyLineEnds_of_no_return (Json.write_no_return hv)]

/-- A value that was written to a file is read from it again. -/
theorem readJson_of_write (hr : fs.readBytes path = .ok bytes)
    (he : Utf8.encode (v.write style) = .ok bytes) (hv : Json.Readable style.ascii v)
    (hd : v.nesting ≤ Json.maxDepth) : fs.readJson path = .ok v := by
  rw [readJson_of_readText (readText_of_write hr he hv), Json.read_write hv hd]
  rfl

/-- What was written to a file is read from it again as it was, if it is nested no deeper than the reader
goes. -/
theorem readJson_written_iff {w : Json} (hr : fs.readBytes path = .ok bytes)
    (he : Utf8.encode (v.write style) = .ok bytes) (hv : Json.Readable style.ascii v) :
    fs.readJson path = .ok w ↔ w = v ∧ v.nesting ≤ Json.maxDepth := by
  rw [readJson_of_readText (readText_of_write hr he hv), ← Json.read_write_iff hv]
  rcases Json.read (v.write style) with e | w' <;> simp [Except.mapError]

end Files

/-- What is written for a tree all of whose types are texts can be read back. -/
theorem Element.TextTypes.readable {e : Element} (h : e.TextTypes) : Json.Readable false e.toJson :=
  Element.readable_toJson e (h.mono fun type ⟨t, ht⟩ => by rw [ht]; simp [Json.Readable])

namespace Document

variable {fs : Files} {path : Path} {d d' : Document} {bytes : Bytes}

theorem read_run_error {f : Fault} (h : load fs path = .error f) :
    (read path).run fs = ⟨.error f, fs, []⟩ := by
  unfold read
  rw [Action.run_state_bind, h, Action.run_ofExcept_error_bind]

theorem read_run_ok (h : load fs path = .ok d) :
    ∃ log, (read path).run fs = ⟨.ok d, LogKeeper.keep log fs, log⟩ := by
  unfold read
  rw [Action.run_state_bind, h, Action.run_ofExcept_ok_bind]
  exact ⟨_, rfl⟩

/-- Reading gives what is loaded. -/
theorem read_result (fs : Files) (path : Path) : ((read path).run fs).result = load fs path := by
  cases h : load fs path with
  | error f => rw [read_run_error h]
  | ok d =>
    obtain ⟨log, hrun⟩ := read_run_ok h
    rw [hrun]

/-- A document that was loaded is the element of the value in its file. -/
theorem load_ok (h : load fs path = .ok d) :
    d.path = path ∧ ∃ v, fs.readJson path = .ok v ∧ Element.ofJson v = .ok d.root := by
  unfold load at h
  rcases he : fs.exists? path with f | b
  · simp [he, bind, Except.bind] at h
  rcases hv : fs.readJson path with f | v
  · cases b <;> simp [he, hv, bind, Except.bind, throw, throwThe, MonadExceptOf.throw] at h
  rcases hr : Element.ofJson v with f | root
  · cases b <;> simp [he, hv, hr, bind, Except.bind, throw, throwThe, MonadExceptOf.throw] at h
  cases b with
  | false => simp [he, bind, Except.bind, throw, throwThe, MonadExceptOf.throw] at h
  | true =>
    simp only [he, hv, hr, bind, Except.bind, pure, Except.pure] at h
    obtain rfl := Except.ok.inj h
    exact ⟨rfl, v, rfl, hr⟩

/-- A document is loaded from the value in its file. -/
theorem load_of_readJson {v : Json} {root : Element} (hv : fs.readJson path = .ok v)
    (hroot : Element.ofJson v = .ok root) : load fs path = .ok ⟨path, root⟩ := by
  have hexists : fs.exists? path = .ok true := by
    unfold Files.exists?
    rcases hn : fs.nodeAt path with r | n
    · simp [Files.readJson, Files.readText, Files.readBytes, hn] at hv
    · rfl
  unfold load
  simp [hexists, hv, hroot, bind, Except.bind, pure, Except.pure]

/-- The types of the entries of a document that was loaded are texts. -/
theorem textTypes_of_load (h : load fs path = .ok d) : d.root.TextTypes := by
  obtain ⟨-, v, -, hroot⟩ := load_ok h
  exact (Element.toJson_ofJson v d.root hroot).2

/-- What was written for an element is loaded as that element, if it is nested no deeper than the reader
goes. -/
theorem load_rendered_iff {root : Element} (htypes : root.TextTypes)
    (he : Utf8.encode root.render = .ok bytes) (hr : fs.readBytes path = .ok bytes) :
    load fs path = .ok d' ↔ d' = ⟨path, root⟩ ∧ root.toJson.nesting ≤ Json.maxDepth := by
  have hback (w : Json) := Files.readJson_written_iff (w := w) hr he htypes.readable
  constructor
  · intro h
    obtain ⟨hpath, w, hw, hroot⟩ := load_ok h
    obtain ⟨rfl, hdepth⟩ := (hback w).mp hw
    rw [Element.ofJson_toJson _ htypes] at hroot
    obtain ⟨path', root'⟩ := d'
    obtain rfl : path' = path := hpath
    exact ⟨by rw [Except.ok.inj hroot], hdepth⟩
  · rintro ⟨rfl, hdepth⟩
    exact load_of_readJson ((hback _).mpr ⟨rfl, hdepth⟩) (Element.ofJson_toJson _ htypes)

end Document

/-! ### Trees without halves of surrogate pairs -/

/-- Whether the type of an entry is a text, and neither it nor the value holds half a surrogate pair. -/
def Entry.Encodable (e : Entry) : Prop :=
  (∃ t, e.type = .text t ∧ Utf8.Encodable t) ∧ Utf8.Encodable e.value

namespace Element

/-- Whether no text in a tree holds half a surrogate pair, and the types of all entries are texts. -/
def Encodable : Element → Prop
  | ⟨type, _, metadata, children⟩ =>
    Utf8.Encodable type ∧ (∀ e ∈ metadata, e.Encodable) ∧ ∀ c ∈ children, c.Encodable

theorem Encodable.textTypes : ∀ {e : Element}, e.Encodable → e.TextTypes
  | ⟨_, _, metadata, children⟩, h => by
    rw [Encodable] at h
    rw [TextTypes, AllTypes]
    obtain ⟨-, hmetadata, hchildren⟩ := h
    refine ⟨fun entry hentry => ?_, fun c hc => (hchildren c hc).textTypes⟩
    obtain ⟨⟨t, ht, -⟩, -⟩ := hmetadata entry hentry
    exact ⟨t, ht⟩

theorem allTexts_entries {entries : List Entry} (h : ∀ e ∈ entries, ∃ t, e.type = .text t) :
    Json.AllTextsItems Utf8.Encodable (entries.map entryToJson) ↔ ∀ e ∈ entries, e.Encodable := by
  have hkey (s : String) := Utf8.encodable_ofString s
  rw [Json.allTextsItems_iff, List.forall_mem_map]
  refine forall₂_congr fun e he => ?_
  obtain ⟨t, ht⟩ := h e he
  simp [entryToJson, Entry.Encodable, ht, Json.AllTexts, Json.AllTextsMembers, hkey]

/-- The members of a written element, one by one. -/
theorem forall_membersOf {P : Text × Json → Prop} {type : Text} {anchor : Bool} {metadata : List Entry}
    {children : List Json} : (∀ m ∈ membersOf type anchor metadata children, P m) ↔
      P (Json.typeKey, .text type) ∧ (anchor = true → P (Json.anchorKey, .bool true)) ∧
        P (Json.metadataKey, .list (metadata.map entryToJson)) ∧
        (children ≠ [] → P (Json.childrenKey, .list children)) := by
  cases anchor <;> cases children <;> simp [membersOf]

mutual

/-- The texts in what is written for a tree are its own and those of the keys. -/
theorem allTexts_toJson : ∀ e : Element, e.TextTypes →
    (Json.AllTexts Utf8.Encodable e.toJson ↔ e.Encodable)
  | ⟨type, anchor, metadata, children⟩, h => by
    rw [TextTypes, AllTypes] at h
    have hentries := allTexts_entries h.1
    have hbelow := allTexts_toJsonAll children h.2
    have hkey (s : String) := Utf8.encodable_ofString s
    have hnone : (toJsonAll children ≠ [] → Json.AllTextsItems Utf8.Encodable (toJsonAll children)) ↔
        Json.AllTextsItems Utf8.Encodable (toJsonAll children) := by
      refine ⟨fun himp => ?_, fun hall _ => hall⟩
      by_cases hc : toJsonAll children = []
      · rw [hc]
        trivial
      · exact himp hc
    rw [toJson, toObject_eq, Json.AllTexts, Json.allTextsMembers_iff, forall_membersOf, Encodable,
      ← hentries, ← hbelow, ← hnone]
    simp [Json.AllTexts, Json.typeKey, Json.anchorKey, Json.metadataKey, Json.childrenKey, hkey]

theorem allTexts_toJsonAll : ∀ es : List Element, (∀ e ∈ es, e.TextTypes) →
    (Json.AllTextsItems Utf8.Encodable (toJsonAll es) ↔ ∀ e ∈ es, e.Encodable)
  | [], _ => by simp [toJsonAll, Json.AllTextsItems]
  | e :: es, h => by
    obtain ⟨he, hes⟩ := List.forall_mem_cons.mp h
    rw [toJsonAll, Json.AllTextsItems, allTexts_toJson e he, allTexts_toJsonAll es hes,
      List.forall_mem_cons]

end

/-- A tree all of whose types are texts has bytes exactly if it has no halves of surrogate pairs. -/
theorem encodable_iff {e : Element} (h : e.TextTypes) :
    e.Encodable ↔ ∃ bytes, Utf8.encode e.render = .ok bytes := by
  rw [← allTexts_toJson e h, ← @Json.write_encodable_iff .document rfl _ h.readable]
  constructor
  · exact fun hencodable => ⟨_, Utf8.encode_eq_ok_iff.mpr ⟨hencodable, rfl⟩⟩
  · rintro ⟨bytes, he⟩
    exact (Utf8.encode_eq_ok_iff.mp he).1

/-- The logical element of a tree is a part of it. -/
theorem Encodable.logical {root : Element} (h : root.Encodable) : root.logical.Encodable := by
  obtain ⟨type, anchor, metadata, children⟩ := root
  cases anchor with
  | false => exact h
  | true =>
    cases children with
    | nil => exact h
    | cons first others =>
      rw [Encodable] at h
      exact h.2.2 first List.mem_cons_self

theorem Encodable.value {e : Element} (h : e.Encodable) {type : Json} {value : Text}
    (hv : value ∈ e.valuesOf type) : Utf8.Encodable value := by
  obtain ⟨type', anchor, metadata, children⟩ := e
  rw [Encodable] at h
  obtain ⟨entry, hentry, rfl⟩ := List.mem_map.mp hv
  exact (h.2.1 entry (List.mem_filter.mp hentry).1).2

end Element

namespace Document

variable {fs : Files} {path : Path} {d d' : Document} {bytes : Bytes}

/-! ### Writing and reading -/

/-- A document that has bytes is written, or the file system refuses it and everything is as it was. -/
theorem write_of_encodable (he : Utf8.encode d.root.render = .ok bytes) (fs : Files) :
    let o := d.write.run fs
    (o.result = .ok () ∧ o.state.readBytes d.path = .ok bytes) ∨
      ∃ f, o.result = .error f ∧ f.family = .os ∧ ∀ p, o.state.node? p = fs.node? p := by
  have hos {f : Fault} (h : f.family ∈ [Family.os]) : f.family = .os := List.mem_singleton.mp h
  rcases hw : (d.write.run fs).result with f | ⟨⟨⟩⟩
  · refine Or.inr ⟨f, hw, ?_⟩
    rcases d.write_run fs with ⟨f', hc, hrun⟩ | ⟨run, t, made, he', -, -⟩ |
      ⟨bytes', t, q, filled, -, hfilled, ⟨f', hm, hrun⟩ | ⟨moved, hm, log, hrun⟩⟩
    · rw [hrun] at hw ⊢
      obtain rfl := Except.error.inj hw
      exact ⟨hos (Files.failsOnly_createTemporary fs d.path f' hc), fun _ => rfl⟩
    · rw [he] at he'
      cases he'
    · rw [hrun] at hw ⊢
      obtain rfl := Except.error.inj hw
      exact ⟨hos (Files.failsOnly_moveOver filled t d.path f' hm), hfilled.removed⟩
    · rw [hrun] at hw
      cases hw
  · obtain ⟨bytes', he', hread, -⟩ := write_ok hw
    obtain rfl : bytes = bytes' := Except.ok.inj (he.symm.trans he')
    exact Or.inl ⟨hw, hread⟩

/-- Reads the document at a path and writes it back. -/
def rewrite (path : Path) : Action Files Unit := do
  let d ← read path
  d.write

/-- Rewriting a document that can be loaded is writing it. -/
theorem rewrite_of_load (h : load fs path = .ok d) :
    ∃ log, ((rewrite path).run fs).result = (d.write.run (LogKeeper.keep log fs)).result ∧
      ((rewrite path).run fs).state = (d.write.run (LogKeeper.keep log fs)).state := by
  obtain ⟨log, hrun⟩ := read_run_ok h
  have hread : ((read path).run fs).result = .ok d := by rw [hrun]
  refine ⟨log, ?_, ?_⟩
  · unfold rewrite
    rw [Action.run_bind_ok hread, hrun]
  · unfold rewrite
    rw [Action.run_bind_ok hread, hrun]

theorem rewrite_of_unreadable {f : Fault} (h : load fs path = .error f) :
    ((rewrite path).run fs).result = .error f ∧ ((rewrite path).run fs).state = fs := by
  have hread : ((read path).run fs).result = .error f := by rw [read_run_error h]
  unfold rewrite
  rw [Action.run_bind_error hread, read_run_error h]
  exact ⟨rfl, rfl⟩

/-- Rewriting a file again leaves the bytes that are there. It succeeds if what was written is nested no
deeper than the reader goes, and fails if it is. -/
theorem rewrite_again (h : ((rewrite path).run fs).result = .ok ()) :
    let left := ((rewrite path).run fs).state
    let again := (rewrite path).run left
    ∃ d bytes, load fs path = .ok d ∧ Utf8.encode d.root.render = .ok bytes ∧
      left.readBytes path = .ok bytes ∧ again.state.readBytes path = .ok bytes ∧
      (d.root.toJson.nesting ≤ Json.maxDepth → again.result = .ok ()) ∧
      (Json.maxDepth < d.root.toJson.nesting → ∃ f, again.result = .error f) := by
  rcases hl : load fs path with f | ⟨path', root⟩
  · rw [(rewrite_of_unreadable hl).1] at h
    cases h
  obtain ⟨hpath, v, hv, -⟩ := load_ok hl
  obtain rfl : path' = path := hpath
  obtain ⟨log, hresult, hstate⟩ := rewrite_of_load hl
  rw [hresult] at h
  rw [hstate]
  obtain ⟨bytes, he, hread, hlog, -⟩ := write_ok h
  refine ⟨_, bytes, rfl, he, hread, ?_⟩
  -- What was written is loaded as it was, or not at all.
  have hback (d' : Document) : load ((⟨path', root⟩ : Document).write.run (LogKeeper.keep log fs)).state
      path' = .ok d' ↔ d' = ⟨path', root⟩ ∧ root.toJson.nesting ≤ Json.maxDepth :=
    load_rendered_iff (textTypes_of_load hl) he hread
  rcases hl' : load ((⟨path', root⟩ : Document).write.run (LogKeeper.keep log fs)).state path' with f | d'
  · obtain ⟨hfailed, hsame⟩ := rewrite_of_unreadable hl'
    refine ⟨hsame.symm ▸ hread, fun hdepth => ?_, fun _ => ⟨f, hfailed⟩⟩
    cases hl'.symm.trans ((hback _).mpr ⟨rfl, hdepth⟩)
  · obtain ⟨rfl, hdepth⟩ := (hback d').mp hl'
    obtain ⟨log', hresult', hstate'⟩ := rewrite_of_load hl'
    -- The first write has left the place of the temporary file free.
    obtain ⟨old, hold⟩ := Files.readBytes_of_readJson hv
    obtain ⟨first, hfirst⟩ := Files.readBytes_keep_ok log hold
    have hagain : ((⟨path', root⟩ : Document).write.run (LogKeeper.keep log'
        ((⟨path', root⟩ : Document).write.run (LogKeeper.keep log fs)).state)).result = .ok () :=
      write_again hfirst h rfl he log'
    obtain ⟨bytes', he', hread', -⟩ := write_ok hagain
    obtain rfl : bytes = bytes' := Except.ok.inj (he.symm.trans he')
    exact ⟨hstate' ▸ hread', fun _ => hresult'.trans hagain, fun hdeep => absurd hdepth (Nat.not_le.mpr hdeep)⟩

/-- A text with quotes, a backslash, both line ends, a line separator and a character beyond the first
plane. -/
def ornate : Text := "\"\\\r\n\u2028😀"

/-- The path of the almanac. -/
def almanacPath : Path := ⟨[], ["almanac"]⟩

/-- An almanac with one volume. -/
def almanac : Document :=
  ⟨almanacPath, ⟨"Periodical", true, [], [⟨"Volume", false, [⟨.text "Title", ornate⟩], []⟩]⟩⟩

/-- Files with an almanac on one line, the mark of which is a number. -/
def almanacFiles : Files :=
  ⟨[], [(["almanac"], .file (Utf8.bytesOf
    ("\x7b\"children\": [\x7b\"type\": \"Volume\"\x7d], \"anchor\": 1, \"type\": \"Periodical\"\x7d" :
      String)))], 0, none⟩

theorem encodable_almanac : almanac.root.Encodable := by
  have hword := Utf8.encodable_ofString
  simp [almanac, Element.Encodable, Entry.Encodable, ornate, hword]

end Document

namespace Element

/-- Parts in parts, to a depth. None has metadata. -/
def parts : Nat → Element
  | 0 => ⟨"Part", false, [], []⟩
  | n + 1 => ⟨"Part", false, [], [parts n]⟩

/-- The list of metadata that is written for the innermost part makes one level more. -/
theorem nesting_parts (n : Nat) : (parts n).toJson.nesting = 2 * n + 2 := by
  induction n with
  | zero => rfl
  | succ n ih =>
    show max 0 (max (0 + 1) (max (max (parts n).toJson.nesting 0 + 1) 0)) + 1 = _
    rw [ih]
    omega

theorem encodable_parts (n : Nat) : (parts n).Encodable := by
  have hword := Utf8.encodable_ofString "Part"
  induction n with
  | zero => simp [parts, Encodable, hword]
  | succ n ih => simp [parts, Encodable, hword, ih]

end Element

namespace Document

/-- The path of the parts. -/
def partsPath : Path := ⟨[], ["parts"]⟩

/-- A temporary file can be made beside parts that stand alone. -/
theorem createTemporary_parts (bytes : Bytes) :
    ∃ t made, Files.createTemporary ⟨[], [(["parts"], .file bytes)], 0, none⟩ partsPath =
      .ok (t, made) := by
  have hfree : Files.freeTemporary ⟨[], [(["parts"], .file bytes)], 0, none⟩ partsPath
      Files.temporaryTries 0 = .ok (⟨[slash], [".parts.TMP00000"]⟩, [".parts.TMP00000"]) := rfl
  unfold Files.createTemporary
  rw [hfree]
  exact ⟨_, _, rfl⟩

/-- Whether every tree without halves of surrogate pairs that was written is read back. -/
def RoundTrips : Prop :=
  ∀ (d : Document) (fs : Files), d.root.Encodable → (d.write.run fs).result = .ok () →
    ((read d.path).run (d.write.run fs).state).result = .ok d

end Document

end TitleClasses
