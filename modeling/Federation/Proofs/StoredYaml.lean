import Federation.Proofs.DocumentOutline
import Federation.Proofs.StoredDocument

/-!
# Saving and loading YAML

A sound document that is saved as YAML is loaded again as it was. No text is taken for anything but
itself: a text that could be is written between quotes, with escapes or as a block.
-/

namespace Federation.NetworkDocument

variable {doc : NetworkDocument} {path : String}

theorem ofText_yaml (yaml : DocumentFormat.ofPath path = .yaml)
    (admitted : ∀ t, doc.registryVersion = some t → Instant.admits t.date = true) :
    ofText (.ofPath path) (doc.toText (.ofPath path)) = .ok doc.normalized := by
  rw [yaml, toText, ofText, ofYamlText?_toYamlText admitted]
  rfl

/-- Saving as YAML and loading: a sound document comes back as it was, if its topology is the one
that its name is understood as and the year of its version can be written down. The version is an
instant, so that a leap second in it is second 60. The path may begin at the root or in the current
folder. -/
theorem yaml_roundTrip (doc : NetworkDocument) (f : FileSystem) (path : String)
    (yaml : DocumentFormat.ofPath path = .yaml) (sound : doc.validate = .ok ())
    (understood : Topology.ofName doc.topology.name = doc.topology)
    (admitted : ∀ t, doc.registryVersion = some t → Instant.admits t.date = true)
    (writable : f.Writable path) :
    ∃ f', (doc.save path).run f = .ok () f' ∧ load f'.read path = .ok doc := by
  have normalized : doc.normalized = doc := by rw [NetworkDocument.normalized, understood]
  have read := ofText_yaml yaml admitted
  rw [normalized] at read
  exact exists_save_load_of_ofText sound read sound writable

/-- A sound document with texts that look like other values, like marks or like several lines. -/
def misleading : NetworkDocument where
  networkId := "null"
  topology := .custom "--- # no\r\nmark"
  registryVersion := some leapSecond
  metadata := .ofList [("", ""), ("~", "true"), (" key: ", "0x1F"), ("- item", "2015-07-01"),
    ("several\nlines", "first\n  second\n\n"),
    (String.ofList (List.replicate 129 'k'), "\t\x00\x7f\ufeff")]
  providers := .ofList [("#", ⟨"\x7b\x7d", "[]", {}⟩),
    ("? a", ⟨"it's", "\x22quoted\x22 ", .ofList [("<<", "*a")]⟩)]
  relationships := [⟨"#", "? a", .transitive⟩, ⟨"? a", "#", .explicit⟩]

/-- A path may lead back over the folders around the current one. -/
theorem writable_beside : homes.Writable "../shared/./net.yaml" := by
  have relative : Path.isAbsolute "../shared/./net.yaml" = false := by decide +kernel
  have start : homes.origin? "../shared/./net.yaml" = .ok homes.current := by
    rw [FileSystem.origin?_eq (by simp) (by decide) (by decide), relative]
    rfl
  have walk : homes.walk homes.current (Path.parts "../shared/./net.yaml") =
      .ok ["net.yaml", "shared", "home"] := by decide +kernel
  exact FileSystem.writable_of_walk start (by decide +kernel) walk (by decide +kernel)

theorem yaml_roundTrip_misleading :
    DocumentFormat.ofPath "../shared/./net.yaml" = .yaml ∧ misleading.validate = .ok () ∧
      Topology.ofName misleading.topology.name = misleading.topology ∧
      (∀ t, misleading.registryVersion = some t → Instant.admits t.date = true) ∧
      homes.Writable "../shared/./net.yaml" ∧
      ∃ f', (misleading.save "../shared/./net.yaml").run homes = .ok () f' ∧
        load f'.read "../shared/./net.yaml" = .ok misleading := by
  have yaml : DocumentFormat.ofPath "../shared/./net.yaml" = .yaml := by decide +kernel
  have sound : misleading.validate = .ok () := by decide +kernel
  have understood : Topology.ofName misleading.topology.name = misleading.topology := by
    decide +kernel
  have admitted : ∀ t, misleading.registryVersion = some t → Instant.admits t.date = true := by
    rintro t ht
    obtain rfl := Option.some.inj ht
    decide
  exact ⟨yaml, sound, understood, admitted, writable_beside,
    yaml_roundTrip misleading homes _ yaml sound understood admitted writable_beside⟩

end Federation.NetworkDocument
