import Federation.Proofs.DocumentTree
import Federation.Proofs.FileWriting
import Federation.Proofs.ParsedDocument

/-!
# Saving and loading

A sound document that is saved as JSON is loaded again as it was, whatever its texts are and
whatever it leaves out. A document that is not sound is refused, with its violation, before any file
is touched.
-/

namespace Federation.NetworkDocument

variable {doc : NetworkDocument} {f : FileSystem} {path : String}

section Save

variable {f' : FileSystem}

theorem run_adaptExcept_eq_ok_iff {action : EStateM FileError FileSystem Unit} :
    (action.adaptExcept DocumentError.file).run f = .ok () f' ↔ action.run f = .ok () f' := by
  simp only [EStateM.run, EStateM.adaptExcept]
  cases action f <;> simp

theorem run_adaptExcept_eq_error_iff {action : EStateM FileError FileSystem Unit}
    {e : DocumentError} : (action.adaptExcept DocumentError.file).run f = .error e f' ↔
      ∃ cause, e = .file cause ∧ action.run f = .error cause f' := by
  simp only [EStateM.run, EStateM.adaptExcept]
  cases action f <;> simp [eq_comm]

/-- A document is saved if it is sound and its text is written. -/
theorem save_eq_ok_iff : (doc.save path).run f = .ok () f' ↔ doc.validate = .ok () ∧
    (FileSystem.write path (doc.toText (.ofPath path))).run f = .ok () f' := by
  rw [save, Outcome.run_ofExcept_bind_eq_ok_iff, check]
  simp only [Outcome.mapError_eq_ok_iff, run_adaptExcept_eq_ok_iff]
  exact ⟨fun ⟨_, h⟩ => h, fun h => ⟨(), h⟩⟩

/-- A document is not saved if it is not sound, and no file is touched then, or if its text is not
written. -/
theorem save_eq_error_iff {e : DocumentError} : (doc.save path).run f = .error e f' ↔
    (∃ violation, doc.validate = .error violation ∧ e = .unsound violation ∧ f = f') ∨
      doc.validate = .ok () ∧ ∃ cause, e = .file cause ∧
        (FileSystem.write path (doc.toText (.ofPath path))).run f = .error cause f' := by
  rw [save, Outcome.run_ofExcept_bind_eq_error_iff, check, Outcome.mapError_eq_error_iff]
  simp only [Outcome.mapError_eq_ok_iff, run_adaptExcept_eq_error_iff]
  refine or_congr ⟨?_, ?_⟩ ⟨fun ⟨_, h⟩ => h, fun h => ⟨(), h⟩⟩
  · rintro ⟨⟨violation, h, rfl⟩, rfl⟩
    exact ⟨violation, h, rfl, rfl⟩
  · rintro ⟨violation, h, rfl, rfl⟩
    exact ⟨⟨violation, h, rfl⟩, rfl⟩

/-- A document that is not saved, for whatever reason, leaves all files as they are. -/
theorem eq_of_save_eq_error {e : DocumentError} (h : (doc.save path).run f = .error e f') :
    f' = f := by
  rcases save_eq_error_iff.1 h with ⟨_, -, -, rfl⟩ | ⟨-, _, -, hwrite⟩
  · rfl
  · exact FileSystem.eq_of_write_eq_error hwrite

end Save

theorem Understood.normalized_eq (h : doc.Understood) : doc.normalized = doc := by
  rw [normalized, h.topology_eq]

theorem load_of_read {files : Files} {text : String} (h : files path = .ok text) :
    load files path = parse (.ofPath path) text := by
  rw [load, h]
  rfl

/-- What is in a file is read whether or not it was saved there. -/
theorem load_of_ofText {files : Files} {text : String} (stored : files path = .ok text)
    (read : ofText (.ofPath path) text = .ok doc) (sound : doc.validate = .ok ()) :
    load files path = .ok doc := by
  have hcheck : doc.check = .ok () := Outcome.mapError_eq_ok_iff.2 sound
  rw [load_of_read stored]
  refine Outcome.bind_eq_ok_iff.2 ⟨doc, read, ?_⟩
  rw [hcheck]
  rfl

/-- A sound document that is saved is loaded as what its text is read as. -/
theorem exists_save_load_of_ofText {doc' : NetworkDocument} (sound : doc.validate = .ok ())
    (read : ofText (.ofPath path) (doc.toText (.ofPath path)) = .ok doc')
    (sound' : doc'.validate = .ok ()) (writable : f.Writable path) :
    ∃ f', (doc.save path).run f = .ok () f' ∧ load f'.read path = .ok doc' := by
  obtain ⟨f', hwrite, hread⟩ := FileSystem.exists_write writable (doc.toText (.ofPath path))
  exact ⟨f', save_eq_ok_iff.2 ⟨sound, hwrite⟩, load_of_ofText hread read sound'⟩

/-- What is understood of a topology does not matter for soundness. -/
theorem validate_normalized (doc : NetworkDocument) : doc.normalized.validate = doc.validate :=
  rfl

theorem ofText_json (json : DocumentFormat.ofPath path = .json)
    (readable : ∀ t, doc.registryVersion = some t → t.Readable) :
    ofText (.ofPath path) doc.toJsonText = .ok doc.normalized := by
  rw [json, ofText, ofJsonText_toJsonText readable]
  rfl

theorem load_of_stored {files : Files} (json : DocumentFormat.ofPath path = .json)
    (stored : files path = .ok doc.toJsonText) (sound : doc.validate = .ok ())
    (readable : ∀ t, doc.registryVersion = some t → t.Readable) :
    load files path = .ok doc.normalized :=
  load_of_ofText stored (ofText_json json readable) (doc.validate_normalized.trans sound)

theorem exists_save_load (json : DocumentFormat.ofPath path = .json)
    (sound : doc.validate = .ok ()) (readable : ∀ t, doc.registryVersion = some t → t.Readable)
    (writable : f.Writable path) : ∃ f', (doc.save path).run f = .ok () f' ∧
      load f'.read path = .ok doc.normalized := by
  refine exists_save_load_of_ofText sound ?_ (doc.validate_normalized.trans sound) writable
  have htext : doc.toText (.ofPath path) = doc.toJsonText := by rw [json, toText]
  rw [htext]
  exact ofText_json json readable

theorem sound_of_parse {format : DocumentFormat} {text : String}
    (h : parse format text = .ok doc) : doc.validate = .ok () := by
  obtain ⟨read, -, h⟩ := Outcome.bind_eq_ok_iff.1 h
  obtain ⟨_, hcheck, h⟩ := Outcome.bind_eq_ok_iff.1 h
  cases h
  exact Outcome.mapError_eq_ok_iff.1 hcheck

/-- Saving as JSON and loading: a document that is not sound is refused and leaves all files as they
are, a sound one comes back with its topology as it is understood, and one that was read from a text
comes back as it was. A version is readable if some text is read as it. The path may begin at the
root or in the current folder. -/
theorem json_roundTrip (doc : NetworkDocument) (f : FileSystem) (path : String)
    (json : DocumentFormat.ofPath path = .json) :
    (∀ violation, doc.validate = .error violation →
      (doc.save path).run f = .error (.unsound violation) f) ∧
    (doc.validate = .ok () → (∀ t, doc.registryVersion = some t → t.Readable) →
      f.Writable path → ∃ f', (doc.save path).run f = .ok () f' ∧
        load f'.read path = .ok { doc with topology := .ofName doc.topology.name }) ∧
    (∀ format text, parse format text = .ok doc → f.Writable path →
      ∃ f', (doc.save path).run f = .ok () f' ∧ load f'.read path = .ok doc) := by
  refine ⟨fun violation h => save_eq_error_iff.2 (Or.inl ⟨violation, h, rfl, rfl⟩), ?_, ?_⟩
  · intro sound readable writable
    exact exists_save_load json sound readable writable
  · intro format text h writable
    have understood := understood_of_parse h
    obtain ⟨f', hsave, hload⟩ :=
      exists_save_load json (sound_of_parse h) understood.version writable
    rw [understood.normalized_eq] at hload
    exact ⟨f', hsave, hload⟩

/-- Half a second into the leap second at the end of June 2015. -/
def leapSecond : Instant :=
  ⟨⟨2015, 6, 30, by decide, by decide⟩, 1439, 60, 500000000, by decide, by decide, by decide⟩

/-- A sound document with texts that need care, and with metadata of one provider only. -/
def awkward : NetworkDocument where
  networkId := "\x22net\x22\\ \x01\n"
  topology := .custom " peer-to-peer\t"
  registryVersion := some leapSecond
  providers := .ofList [("🚀", ⟨"/\x7f", "hub", {}⟩),
    ("é", ⟨"null", "a\\u0000", .ofList [("", "\x00")]⟩)]
  relationships := [⟨"🚀", "é", .transitive⟩, ⟨"é", "🚀", .explicit⟩, ⟨"🚀", "é", .explicit⟩]

/-- A document of a network whose name is blank. -/
def nameless : NetworkDocument where
  networkId := "\t "

/-- A document in YAML, with the version of its registry in a time zone of its own. -/
def zonedText : String :=
  "network_id: net\ntopology_type: ' peer-to-peer'\nregistry_version: 2015-07-01 00:59:60.5+01:00\n"

/-- What that document is read as. -/
def zoned : NetworkDocument where
  networkId := "net"
  topology := .peerToPeer
  registryVersion := some leapSecond

theorem readable_leapSecond : leapSecond.Readable :=
  ⟨"2015-06-30T23:59:60.500Z", by decide +kernel⟩

/-- The folder of a user, who works there, and an empty one beside it. -/
def homes : FileSystem :=
  .ofList "/home/user" [("/home/shared", .folder)]

/-- A path from the root is not tied to the current folder. -/
theorem writable_shared : homes.Writable "/home/shared/net.JSON" := by
  have path_eq :
      "/home/shared/net.JSON" = "/" ++ FileSystem.key ["net.JSON", "shared", "home"] := by
    decide +kernel
  have named : ∀ name ∈ ["net.JSON", "shared", "home"], Path.IsName name := by
    simp only [List.forall_mem_cons]
    exact ⟨⟨by decide, by decide, by decide, by decide, by decide⟩,
      ⟨by decide, by decide, by decide, by decide, by decide⟩,
      ⟨by decide, by decide, by decide, by decide, by decide⟩, List.forall_mem_nil _⟩
  have folders : ∀ n, homes.lookup? (["net.JSON", "shared", "home"].drop (n + 1)) =
      some .folder := by
    rintro (_ | _ | n)
    · decide +kernel
    · decide +kernel
    · rw [List.drop_eq_nil_of_le (by simp)]
      rfl
  rw [path_eq]
  exact FileSystem.writable_absolute (List.cons_ne_nil _ _) named folders (by decide +kernel)
    (by decide +kernel)

theorem json_roundTrip_awkward :
    DocumentFormat.ofPath "/home/shared/net.JSON" = .json ∧
      nameless.validate = .error (.missingField "network_id") ∧
      (nameless.save "/home/shared/net.JSON").run homes =
        .error (.unsound (.missingField "network_id")) homes ∧
      awkward.validate = .ok () ∧ (∀ t, awkward.registryVersion = some t → t.Readable) ∧
      homes.Writable "/home/shared/net.JSON" ∧
      (∃ f', (awkward.save "/home/shared/net.JSON").run homes = .ok () f' ∧
        load f'.read "/home/shared/net.JSON" = .ok { awkward with topology := .peerToPeer }) ∧
      parse .yaml zonedText = .ok zoned ∧
      ∃ f', (zoned.save "/home/shared/net.JSON").run homes = .ok () f' ∧
        load f'.read "/home/shared/net.JSON" = .ok zoned := by
  have json : DocumentFormat.ofPath "/home/shared/net.JSON" = .json := by decide +kernel
  have blank : nameless.validate = .error (.missingField "network_id") := by decide +kernel
  have sound : awkward.validate = .ok () := by decide +kernel
  have readable : ∀ t, awkward.registryVersion = some t → t.Readable := by
    rintro t ht
    obtain rfl := Option.some.inj ht
    exact readable_leapSecond
  have parsed : parse .yaml zonedText = .ok zoned := by decide +kernel
  have understood : Topology.ofName awkward.topology.name = .peerToPeer := by decide +kernel
  have refused := (json_roundTrip nameless homes _ json).1 _ blank
  have loaded := (json_roundTrip awkward homes _ json).2.1 sound readable writable_shared
  rw [understood] at loaded
  have restored := (json_roundTrip zoned homes _ json).2.2 _ _ parsed writable_shared
  exact ⟨json, blank, refused, sound, readable, writable_shared, loaded, parsed, restored⟩

end Federation.NetworkDocument
