import TitleClasses.Files.Tree

/-!
# What is read from a file

A text is read from the bytes at a path, and a value from the text: each layer is told by the one below
it and adds faults of its own. What has been read is taken back layer by layer (`readJson_eq_ok`,
`readText_eq_ok`), and what the bytes tell is carried up (`readText_of_decode`, `readJson_of_readText`).
-/

namespace TitleClasses.Files

open Utf8 (Bytes)

variable {fs fs' : Files} {path path' : Path} {bytes : Bytes} {t : Text} {v : Json} {f : Fault}

/-! ### Bytes -/

/-- What can be read is there. -/
theorem exists?_of_readBytes (h : fs.readBytes path = .ok bytes) : fs.exists? path = .ok true := by
  unfold readBytes at h
  unfold exists?
  rcases hnode : fs.nodeAt path with r | n
  · rw [hnode] at h
    cases h
  · rfl

/-- Only the file system refuses bytes. -/
theorem refused_of_readBytes (h : fs.readBytes path = .error f) : ∃ r, f = .refused r path.toText none := by
  unfold readBytes at h
  rcases hnode : fs.nodeAt path with r | n
  · rw [hnode] at h
    exact ⟨r, (Except.error.inj h).symm⟩
  · rw [hnode] at h
    cases n with
    | directory => exact ⟨.isDirectory, (Except.error.inj h).symm⟩
    | _ => cases h

/-! ### Texts -/

theorem readText_of_unread (h : fs.readBytes path = .error f) : fs.readText path = .error f := by
  unfold readText
  rw [h]

theorem readText_of_decode {u : Text} (h : fs.readBytes path = .ok bytes)
    (hd : Utf8.decode bytes = .ok u) : fs.readText path = .ok u.unifyLineEnds := by
  unfold readText
  rw [h]
  dsimp only
  rw [hd]

/-- A text that is read was decoded, and has got its line ends from that. -/
theorem readText_eq_ok (h : fs.readText path = .ok t) :
    ∃ bytes u, fs.readBytes path = .ok bytes ∧ Utf8.decode bytes = .ok u ∧ t = u.unifyLineEnds := by
  rcases hread : fs.readBytes path with f | bytes
  · rw [readText_of_unread hread] at h
    cases h
  rcases hd : Utf8.decode bytes with e | u
  · simp [readText, hread, hd] at h
  · exact ⟨bytes, u, rfl, hd, Except.ok.inj (h.symm.trans (readText_of_decode hread hd))⟩

theorem readText_congr (h : fs'.readBytes path' = fs.readBytes path) :
    fs'.readText path' = fs.readText path := by
  unfold readText
  rw [h]

/-! ### Values -/

theorem readJson_of_unread (h : fs.readBytes path = .error f) : fs.readJson path = .error f := by
  unfold readJson
  rw [readText_of_unread h]

theorem readJson_of_readText (h : fs.readText path = .ok t) :
    fs.readJson path = (Json.read t).mapError .unreadable := by
  unfold readJson
  rw [h]
  dsimp only
  cases Json.read t <;> rfl

/-- A value that is read was read from the text. -/
theorem readJson_eq_ok (h : fs.readJson path = .ok v) :
    ∃ t, fs.readText path = .ok t ∧ Json.read t = .ok v := by
  rcases ht : fs.readText path with f | t
  · simp [readJson, ht] at h
  rw [readJson_of_readText ht] at h
  rcases hv : Json.read t with e | w
  · rw [hv] at h
    cases h
  · rw [hv] at h
    obtain rfl := Except.ok.inj h
    exact ⟨t, rfl, hv⟩

theorem readJson_congr (h : fs'.readBytes path' = fs.readBytes path) :
    fs'.readJson path' = fs.readJson path := by
  unfold readJson
  rw [readText_congr h]

/-- A value is read from bytes. -/
theorem readBytes_of_readJson (h : fs.readJson path = .ok v) : ∃ bytes, fs.readBytes path = .ok bytes := by
  obtain ⟨t, ht, -⟩ := readJson_eq_ok h
  obtain ⟨bytes, -, hread, -⟩ := readText_eq_ok ht
  exact ⟨bytes, hread⟩

/-- A text that is no JSON, or that the reader does not bear, stands in bytes. -/
theorem readBytes_of_unreadable {e : Json.ReadError} (h : fs.readJson path = .error (.unreadable e)) :
    ∃ bytes, fs.readBytes path = .ok bytes := by
  rcases hread : fs.readBytes path with f | bytes
  · obtain ⟨r, rfl⟩ := refused_of_readBytes hread
    cases h.symm.trans (readJson_of_unread hread)
  · exact ⟨bytes, rfl⟩

end TitleClasses.Files
