import Federation.Document.Store
import Federation.Proofs.InstantText
import Federation.Proofs.Outcome

/-!
# Documents that were read

Whatever text a document was read from, its topology is the one that its name is understood as, and
the version of its registry is an instant that the reader of dates can produce.
-/

namespace Federation

/-- What reading makes of a document. -/
structure NetworkDocument.Understood (doc : NetworkDocument) : Prop where
  topology_eq : Topology.ofName doc.topology.name = doc.topology
  version : ∀ t, doc.registryVersion = some t → t.Readable

theorem Topology.ofName_hubAndSpoke : ofName hubAndSpoke.name = hubAndSpoke := by
  decide +kernel

theorem Topology.ofName_peerToPeer : ofName peerToPeer.name = peerToPeer := by
  decide +kernel

/-! ### Reading JSON -/

section OfJson

open Json

theorem Topology.name_of_ofJson {j : Json} {t : Topology} (h : ofJson j = .ok t) :
    ofName t.name = t := by
  obtain ⟨s, -, rfl⟩ := Outcome.map_eq_ok_iff.1 h
  exact ofName_name_ofName s

theorem Instant.readable_of_ofJson {j : Json} {t : Instant} (h : ofJson j = .ok t) :
    t.Readable := by
  obtain ⟨s, -, h⟩ := Outcome.bind_eq_ok_iff.1 h
  split at h
  · rename_i u hread
    cases h
    exact ⟨s, hread⟩
  · cases h

theorem readable_of_readOption {j : Json} {version : Option Instant}
    (h : readOption Instant.ofJson j = .ok version) : ∀ t, version = some t → t.Readable := by
  unfold readOption at h
  split at h
  · cases h
    exact fun _ ht => nomatch ht
  · obtain ⟨t, ht, rfl⟩ := Outcome.map_eq_ok_iff.1 h
    rintro u hu
    obtain rfl := Option.some.inj hu
    exact Instant.readable_of_ofJson ht

theorem exists_of_readField {α : Type} {name : String} {earlier : Option α}
    {readItem : Json → Read α} {j : Json} {x : Option α}
    (h : readField name earlier readItem j = .ok x) :
    ∃ y, x = some y ∧ readItem j = .ok y := by
  unfold readField at h
  split at h
  · cases h
  · obtain ⟨y, hy, rfl⟩ := Outcome.map_eq_ok_iff.1 h
    exact ⟨y, rfl, hy⟩

theorem eq_or_exists_of_takeItemD {α : Type} {default x : α} {readItem : Json → Read α}
    {items rest : List Json} (h : takeItemD default readItem items = .ok (x, rest)) :
    x = default ∨ ∃ j, readItem j = .ok x := by
  cases items with
  | nil =>
    cases h
    exact Or.inl rfl
  | cons j items =>
    obtain ⟨y, hy, h⟩ := Outcome.bind_eq_ok_iff.1 h
    cases h
    exact Or.inr ⟨j, hy⟩

namespace NetworkDocument

/-- What reading makes of the fields that were read so far. -/
structure Draft.Understood (d : Draft) : Prop where
  topology_eq : ∀ t, d.topology = some t → Topology.ofName t.name = t
  version : ∀ t, d.registryVersion = some (some t) → t.Readable

theorem Draft.Understood.read {d d' : Draft} {m : Option String × Json} (hd : d.Understood)
    (h : d.read m = .ok d') : d'.Understood := by
  obtain ⟨name, -, h⟩ := Outcome.bind_eq_ok_iff.1 h
  split at h
  all_goals obtain ⟨x, hx, h⟩ := Outcome.bind_eq_ok_iff.1 h; cases h
  case h_2 =>
    obtain ⟨t, rfl, ht⟩ := exists_of_readField hx
    refine ⟨?_, hd.version⟩
    intro u hu
    obtain rfl := Option.some.inj hu
    exact Topology.name_of_ofJson ht
  case h_3 =>
    obtain ⟨v, rfl, hv⟩ := exists_of_readField hx
    refine ⟨hd.topology_eq, ?_⟩
    intro t ht
    exact readable_of_readOption hv t (Option.some.inj ht)
  all_goals exact ⟨hd.topology_eq, hd.version⟩

theorem Draft.Understood.foldlM {members : List (Option String × Json)} {d d' : Draft}
    (hd : d.Understood) (h : members.foldlM Draft.read d = .ok d') : d'.Understood := by
  induction members generalizing d with
  | nil =>
    cases h
    exact hd
  | cons m rest ih =>
    rw [List.foldlM_cons] at h
    obtain ⟨next, hnext, hrest⟩ := Outcome.bind_eq_ok_iff.1 h
    exact ih (hd.read hnext) hrest

theorem Draft.Understood.finish {d : Draft} (hd : d.Understood) {doc : NetworkDocument}
    (h : d.finish = .ok doc) : doc.Understood := by
  obtain ⟨networkId, -, h⟩ := Outcome.bind_eq_ok_iff.1 h
  cases h
  constructor
  · cases htopology : d.topology with
    | none => exact Topology.ofName_hubAndSpoke
    | some t => exact hd.topology_eq t htopology
  · intro t ht
    cases hversion : d.registryVersion with
    | none =>
      rw [hversion] at ht
      cases ht
    | some v =>
      rw [hversion] at ht
      obtain rfl : v = some t := ht
      exact hd.version t hversion

theorem understood_of_ofMembers {members : List (Option String × Json)} {doc : NetworkDocument}
    (h : ofMembers members = .ok doc) : doc.Understood := by
  obtain ⟨d, hd, h⟩ := Outcome.bind_eq_ok_iff.1 h
  have hstart : Draft.Understood {} :=
    ⟨fun _ ht => (nomatch ht), fun _ ht => (nomatch ht)⟩
  exact (hstart.foldlM hd).finish h

theorem understood_of_ofItems {items : List Json} {doc : NetworkDocument}
    (h : ofItems items = .ok doc) : doc.Understood := by
  obtain ⟨⟨networkId, _⟩, -, h⟩ := Outcome.bind_eq_ok_iff.1 h
  obtain ⟨⟨topology, _⟩, htopology, h⟩ := Outcome.bind_eq_ok_iff.1 h
  obtain ⟨⟨version, _⟩, hversion, h⟩ := Outcome.bind_eq_ok_iff.1 h
  obtain ⟨⟨metadata, _⟩, -, h⟩ := Outcome.bind_eq_ok_iff.1 h
  obtain ⟨⟨providers, _⟩, -, h⟩ := Outcome.bind_eq_ok_iff.1 h
  obtain ⟨⟨relationships, _⟩, -, h⟩ := Outcome.bind_eq_ok_iff.1 h
  obtain ⟨_, -, h⟩ := Outcome.bind_eq_ok_iff.1 h
  cases h
  constructor
  · rcases eq_or_exists_of_takeItemD htopology with rfl | ⟨j, hj⟩
    · exact Topology.ofName_hubAndSpoke
    · exact Topology.name_of_ofJson hj
  · rcases eq_or_exists_of_takeItemD hversion with rfl | ⟨j, hj⟩
    · exact fun _ ht => nomatch ht
    · exact readable_of_readOption hj

theorem understood_of_ofJson {j : Json} {doc : NetworkDocument} (h : ofJson j = .ok doc) :
    doc.Understood := by
  unfold ofJson readRecord at h
  split at h
  · exact understood_of_ofMembers h
  · exact understood_of_ofItems h
  · cases h

theorem understood_of_ofJsonText {s : String} {doc : NetworkDocument}
    (h : ofJsonText s = .ok doc) : doc.Understood := by
  unfold ofJsonText readWhole at h
  split at h
  split at h
  · cases h
  · rename_i hread
    split at h
    · cases h
      exact understood_of_ofJson hread
    · cases h

end NetworkDocument

end OfJson

/-! ### Reading YAML -/

section OfYaml

open Yaml

namespace Yaml

variable {α β : Type} {P : α → Prop} {Q : β → Prop}

/-- Whatever a reader reads has a property. -/
def Yields (m : Yaml.Read α) (P : α → Prop) : Prop :=
  ∀ anchored left x left', m anchored left = some (x, left') → P x

theorem yields_trivial (m : Yaml.Read α) : Yields m fun _ => True :=
  fun _ _ _ _ _ => trivial

theorem yields_pure {x : α} (h : P x) : Yields (pure x) P := by
  intro anchored left y left' hy
  cases hy
  exact h

theorem yields_failure : Yields failure P := by
  intro anchored left x left' hx
  cases hx

theorem Yields.bind {m : Yaml.Read α} {f : α → Yaml.Read β} (hm : Yields m P)
    (hf : ∀ a, P a → Yields (f a) Q) : Yields (m >>= f) Q := by
  intro anchored left y left' hy
  obtain ⟨⟨a, middle⟩, ha, hy⟩ := Option.bind_eq_some_iff.1 hy
  exact hf a (hm _ _ _ _ ha) _ _ _ _ hy

theorem Yields.map {m : Yaml.Read α} {f : α → β} (hm : Yields m P) (hf : ∀ a, P a → Q (f a)) :
    Yields (f <$> m) Q := by
  rw [← bind_pure_comp]
  exact hm.bind fun a ha => yields_pure (hf a ha)

theorem yields_getDM {o : Option α} (h : ∀ a, o = some a → P a) :
    Yields (o.getDM failure : Yaml.Read α) P := by
  cases o with
  | none => exact yields_failure
  | some a => exact yields_pure (h a rfl)

theorem yields_optional {members : Members} {field : String} {read : Node → Yaml.Read α}
    (hread : ∀ node, Yields (read node) P) (absent : α) (habsent : P absent) :
    Yields (members.optional field read absent) P := by
  unfold Members.optional
  split
  · exact hread _
  · exact yields_pure habsent

theorem yields_readOption {read : Node → Yaml.Read α} (hread : ∀ node, Yields (read node) P)
    (node : Node) : Yields (readOption read node) fun v => ∀ x, v = some x → P x := by
  have hsome : ∀ node, Yields (some <$> read node) fun v => ∀ x, v = some x → P x := by
    intro node
    refine (hread node).map fun a ha x hx => ?_
    obtain rfl := Option.some.inj hx
    exact ha
  have hnone : Yields (pure none) fun v : Option α => ∀ x, v = some x → P x :=
    yields_pure fun _ hx => nomatch hx
  refine (yields_trivial (resolve node)).bind fun node _ => ?_
  split
  · split
    · exact hnone
    · exact hsome _
  · split
    · exact hsome _
    · split
      · exact hnone
      · exact yields_failure
  · exact hsome _

end Yaml

theorem Instant.yields_ofYaml (node : Node) : Yields (ofYaml node) Instant.Readable :=
  (yields_trivial _).bind fun s _ => yields_getDM fun _ ht => ⟨s, ht⟩

namespace NetworkDocument

theorem yields_ofYaml (node : Node) : Yields (ofYaml node) Understood := by
  have htopology : ∀ node, Yields (Topology.ofName <$> readText node)
      fun t => Topology.ofName t.name = t :=
    fun node => (yields_trivial (readText node)).map fun s _ => Topology.ofName_name_ofName s
  have hversion := yields_readOption Instant.yields_ofYaml
  refine (yields_trivial _).bind fun members _ => ?_
  refine (yields_trivial _).bind fun networkId _ => ?_
  refine (yields_optional htopology _ Topology.ofName_hubAndSpoke).bind fun topology htopology => ?_
  refine (yields_optional hversion none fun _ ht => nomatch ht).bind fun version hversion => ?_
  refine (yields_trivial _).bind fun metadata _ => ?_
  refine (yields_trivial _).bind fun providers _ => ?_
  refine (yields_trivial _).bind fun relationships _ => ?_
  exact yields_pure ⟨htopology, hversion⟩

theorem understood_of_ofYamlText? {s : String} {doc : NetworkDocument}
    (h : ofYamlText? s = some doc) : doc.Understood := by
  obtain ⟨tree, -, h⟩ := Option.bind_eq_some_iff.1 h
  obtain ⟨⟨read, left⟩, hread, rfl⟩ := Option.map_eq_some_iff.1 h
  exact yields_ofYaml _ _ _ _ _ hread

/-- Whatever document a text is read as is understood. -/
theorem understood_of_parse {format : DocumentFormat} {text : String} {doc : NetworkDocument}
    (h : parse format text = .ok doc) : doc.Understood := by
  obtain ⟨read, hread, h⟩ := Outcome.bind_eq_ok_iff.1 h
  obtain ⟨_, -, h⟩ := Outcome.bind_eq_ok_iff.1 h
  cases h
  cases format with
  | json => exact understood_of_ofJsonText (Outcome.mapError_eq_ok_iff.1 hread)
  | yaml =>
    cases hyaml : ofYamlText? text with
    | none =>
      rw [ofText, hyaml] at hread
      cases hread
    | some doc =>
      rw [ofText, hyaml] at hread
      cases hread
      exact understood_of_ofYamlText? hyaml

end NetworkDocument

end OfYaml

end Federation
