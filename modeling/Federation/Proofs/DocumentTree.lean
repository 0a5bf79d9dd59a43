import Federation.Document.Json
import Federation.Proofs.InstantText
import Federation.Proofs.JsonText

/-!
# Documents as trees

A document that is made a tree can be read from the tree again. The fields that are left out in
writing are those that a reader fills in, and the topology comes back as its name is understood.
-/

namespace Federation

open Federation.Json

/-! ### Members -/

section Members

variable {δ : Type} {read : δ → Option String × Json → Read δ} {d d' : δ}

theorem foldlM_named_cons {m : String × Json} (h : read d (some m.1, m.2) = .ok d')
    (rest : List (String × Json)) :
    (named (m :: rest)).foldlM read d = (named rest).foldlM read d' := by
  rw [named, List.map_cons, List.foldlM_cons, h]
  rfl

theorem foldlM_named_append {l : List (String × Json)} (h : (named l).foldlM read d = .ok d')
    (rest : List (String × Json)) :
    (named (l ++ rest)).foldlM read d = (named rest).foldlM read d' := by
  rw [named, List.map_append, List.foldlM_append, ← named, h]
  rfl

end Members

/-! ### Tables and lists -/

section Collections

variable {α : Type} {toJson : α → Json} {ofJson : Json → Read α}

theorem legible_tableToJson {t : Table String α} (h : ∀ e ∈ t.entries, Legible (toJson e.2)) :
    Legible (tableToJson toJson t) := by
  apply Legible.record
  intro m hm
  obtain ⟨e, he, rfl⟩ := List.mem_map.1 hm
  exact h e he

theorem foldlM_insert {l : List (String × α)} (h : ∀ e ∈ l, ofJson (toJson e.2) = .ok e.2)
    (t : Table String α) :
    (named (l.map fun e => (e.1, toJson e.2))).foldlM
      (fun t m => do return t.insert (← readName m.1) (← ofJson m.2)) t =
      (Except.ok (l.foldl (fun t e => t.insert e.1 e.2) t) : Read (Table String α)) := by
  induction l generalizing t with
  | nil => rfl
  | cons e rest ih =>
    have hstep : (do return t.insert (← readName (some e.1)) (← ofJson (toJson e.2))) =
        (Except.ok (t.insert e.1 e.2) : Read (Table String α)) := by
      rw [h e List.mem_cons_self]
      rfl
    rw [List.map_cons, foldlM_named_cons hstep]
    exact ih (fun d hd => h d (List.mem_cons_of_mem _ hd)) _

/-- A table reads back if its values do. -/
theorem readTable_tableToJson {t : Table String α}
    (h : ∀ e ∈ t.entries, ofJson (toJson e.2) = .ok e.2) :
    readTable ofJson (tableToJson toJson t) = .ok t := by
  have hfold := foldlM_insert h {}
  have hentries : t.entries.foldl (fun t e => t.insert e.1 e.2) {} = t := Table.ofList_entries t
  rw [hentries] at hfold
  exact hfold

/-- A list reads back if its items do. -/
theorem readList_map {l : List α} (h : ∀ x ∈ l, ofJson (toJson x) = .ok x) :
    readList ofJson (.array (l.map toJson)) = .ok l := by
  have hmap : (l.map toJson).mapM ofJson = .ok l := by
    induction l with
    | nil => rfl
    | cons x rest ih =>
      rw [List.map_cons, List.mapM_cons, h x List.mem_cons_self,
        ih fun y hy => h y (List.mem_cons_of_mem _ hy)]
      rfl
  exact hmap

theorem legible_array_map {l : List α} (h : ∀ x ∈ l, Legible (toJson x)) :
    Legible (.array (l.map toJson)) := by
  apply Legible.array
  intro j hj
  obtain ⟨x, hx, rfl⟩ := List.mem_map.1 hj
  exact h x hx

end Collections

/-! ### Metadata -/

theorem readMetadata_tableToJson (t : Table String String) :
    readMetadata (tableToJson .str t) = .ok t :=
  readTable_tableToJson fun _ _ => rfl

theorem legible_of_mem_metadataMember {t : Table String String} {m : String × Json}
    (h : m ∈ metadataMember t) : Legible m.2 := by
  unfold metadataMember at h
  split at h
  · cases h
  · obtain rfl := List.mem_singleton.1 h
    exact legible_tableToJson fun e _ => .str e.2

/-- What is read of metadata: nothing of empty metadata, which is left out. -/
def writtenMetadata (t : Table String String) : Option (Table String String) :=
  if t.isEmpty then none else some t

theorem getD_writtenMetadata (t : Table String String) : (writtenMetadata t).getD {} = t := by
  unfold writtenMetadata
  split
  · rename_i hempty
    exact Table.ext (List.isEmpty_iff.1 hempty).symm
  · rfl

theorem foldlM_metadataMember {δ : Type} (read : δ → Option String × Json → Read δ)
    (set : Option (Table String String) → δ) {d : δ} (hnone : set none = d)
    (hread : ∀ j t, readMetadata j = .ok t → read d (some "metadata", j) = .ok (set (some t)))
    (t : Table String String) :
    (named (metadataMember t)).foldlM read d = .ok (set (writtenMetadata t)) := by
  unfold metadataMember writtenMetadata
  split
  · rw [hnone]
    rfl
  · exact foldlM_named_cons (hread _ t (readMetadata_tableToJson t)) []

/-! ### Records -/

theorem readField_none {α : Type} {name : String} {ofJson : Json → Read α} {j : Json} {x : α}
    (h : ofJson j = .ok x) : readField name none ofJson j = .ok (some x) := by
  rw [readField, h]
  rfl

/-- A date is read from its text. -/
theorem Instant.ofJson_str {s : String} {t : Instant} (h : read? s = some t) :
    ofJson (.str s) = .ok t := by
  have htext : ∀ expected, readText expected (.str s) = .ok s := fun _ => rfl
  rw [ofJson, htext]
  simp only [bind, Except.bind, h]
  rfl

namespace ProviderEntry

theorem read_metadata {d : Draft} (hd : d.metadata = none) {j : Json} {t : Table String String}
    (h : readMetadata j = .ok t) :
    d.read (some "metadata", j) = .ok { d with metadata := some t } := by
  have hread : d.read (some "metadata", j) =
      (readField "metadata" d.metadata readMetadata j >>= fun t => .ok { d with metadata := t }) :=
    rfl
  rw [hread, hd, readField_none h]
  rfl

theorem ofJson_toJson (entry : ProviderEntry) : ofJson entry.toJson = .ok entry := by
  have hfold := foldlM_metadataMember Draft.read
    (fun t => ⟨some entry.issuer, some entry.role, t⟩) rfl
    (fun _ _ h => read_metadata rfl h) entry.metadata
  have hmembers : ofJson entry.toJson =
      ((named (metadataMember entry.metadata)).foldlM Draft.read
        ⟨some entry.issuer, some entry.role, none⟩ >>= Draft.finish) := rfl
  have hfinish :
      Draft.finish ⟨some entry.issuer, some entry.role, writtenMetadata entry.metadata⟩ =
        .ok ⟨entry.issuer, entry.role, (writtenMetadata entry.metadata).getD {}⟩ := rfl
  rw [getD_writtenMetadata] at hfinish
  rw [hmembers, hfold]
  exact hfinish

theorem legible_toJson (entry : ProviderEntry) : Legible entry.toJson := by
  apply Legible.record
  simp only [List.forall_mem_append, List.forall_mem_cons]
  exact ⟨⟨.str _, .str _, List.forall_mem_nil _⟩, fun m hm => legible_of_mem_metadataMember hm⟩

end ProviderEntry

namespace TrustEntry

theorem ofJson_toJson (entry : TrustEntry) : ofJson entry.toJson = .ok entry := by
  obtain ⟨source, target, level⟩ := entry
  cases level <;> rfl

theorem legible_toJson (entry : TrustEntry) : Legible entry.toJson := by
  apply Legible.record
  simp only [List.forall_mem_cons]
  exact ⟨.str _, .str _, .str _, List.forall_mem_nil _⟩

end TrustEntry

namespace NetworkDocument

theorem read_topology {d : Draft} (hd : d.topology = none) (t : Topology) :
    d.read (some "topology_type", t.toJson) =
      .ok { d with topology := some (Topology.ofName t.name) } := by
  have hread : d.read (some "topology_type", t.toJson) =
      (readField "topology_type" d.topology Topology.ofJson t.toJson >>= fun x =>
        .ok { d with topology := x }) := rfl
  rw [hread, hd]
  rfl

theorem read_registryVersion {d : Draft} (hd : d.registryVersion = none) {s : String}
    {t : Instant} (h : Instant.read? s = some t) :
    d.read (some "registry_version", .str s) =
      .ok { d with registryVersion := some (some t) } := by
  have hread : d.read (some "registry_version", .str s) =
      (readField "registry_version" d.registryVersion (readOption Instant.ofJson) (.str s) >>=
        fun x => .ok { d with registryVersion := x }) := rfl
  have hoption : readOption Instant.ofJson (.str s) = .ok (some t) := by
    rw [str, readOption, ← str, Instant.ofJson_str h]
    rfl
    exact Json.noConfusion
  rw [hread, hd, readField_none hoption]
  rfl

theorem read_metadata {d : Draft} (hd : d.metadata = none) {j : Json} {t : Table String String}
    (h : readMetadata j = .ok t) :
    d.read (some "metadata", j) = .ok { d with metadata := some t } := by
  have hread : d.read (some "metadata", j) =
      (readField "metadata" d.metadata readMetadata j >>= fun t => .ok { d with metadata := t }) :=
    rfl
  rw [hread, hd, readField_none h]
  rfl

theorem read_providers {d : Draft} (hd : d.providers = none) (t : Table String ProviderEntry) :
    d.read (some "providers", tableToJson ProviderEntry.toJson t) =
      .ok { d with providers := some t } := by
  have hread : d.read (some "providers", tableToJson ProviderEntry.toJson t) =
      (readField "providers" d.providers readProviders (tableToJson ProviderEntry.toJson t) >>=
        fun x => .ok { d with providers := x }) := rfl
  have hback : readProviders (tableToJson ProviderEntry.toJson t) = .ok t :=
    readTable_tableToJson fun e _ => e.2.ofJson_toJson
  rw [hread, hd, readField_none hback]
  rfl

theorem read_relationships {d : Draft} (hd : d.relationships = none) (l : List TrustEntry) :
    d.read (some "trust_relationships", .array (l.map TrustEntry.toJson)) =
      .ok { d with relationships := some l } := by
  have hread : d.read (some "trust_relationships", .array (l.map TrustEntry.toJson)) =
      (readField "trust_relationships" d.relationships readRelationships
        (.array (l.map TrustEntry.toJson)) >>= fun x => .ok { d with relationships := x }) := rfl
  have hback : readRelationships (.array (l.map TrustEntry.toJson)) = .ok l :=
    readList_map fun x _ => x.ofJson_toJson
  rw [hread, hd, readField_none hback]
  rfl

/-- The version of the registry as a member of an object, by its text; none for an absent one. -/
def versionMember : Option String → List (String × Json)
  | some s => [("registry_version", .str s)]
  | none => []

theorem foldlM_versionMember {d : Draft} (hd : d.registryVersion = none) {version : Option String}
    (h : ∀ s, version = some s → ∃ t, Instant.read? s = some t) :
    (named (versionMember version)).foldlM Draft.read d =
      .ok { d with registryVersion := version.map Instant.read? } := by
  cases version with
  | none =>
    rw [Option.map_none, ← hd]
    rfl
  | some s =>
    obtain ⟨t, ht⟩ := h s rfl
    rw [Option.map_some, ht]
    exact foldlM_named_cons (read_registryVersion hd ht) []

/-- The text that the version of a document is written as. -/
def versionText (doc : NetworkDocument) : Option String :=
  doc.registryVersion.map (·.write "Z")

theorem read?_versionText {doc : NetworkDocument} {t : Instant} (h : doc.registryVersion = some t)
    (readable : t.Readable) : ∃ s, doc.versionText = some s ∧ Instant.read? s = some t :=
  ⟨t.write "Z", by rw [versionText, h, Option.map_some],
    Instant.read?_write (Instant.readable_iff.1 readable) (Or.inl rfl)⟩

/-- What the text of a version is read as is the version again. -/
theorem bind_versionText {doc : NetworkDocument}
    (h : ∀ t, doc.registryVersion = some t → t.Readable) :
    doc.versionText.bind Instant.read? = doc.registryVersion := by
  cases hversion : doc.registryVersion with
  | none =>
    rw [versionText, hversion]
    rfl
  | some t =>
    obtain ⟨s, hs, ht⟩ := read?_versionText hversion (h t hversion)
    rw [hs, Option.bind_some, ht]

theorem exists_read?_versionText {doc : NetworkDocument}
    (h : ∀ t, doc.registryVersion = some t → t.Readable) {s : String}
    (hs : doc.versionText = some s) : ∃ t, Instant.read? s = some t := by
  obtain ⟨t, ht, rfl⟩ := Option.map_eq_some_iff.1 hs
  exact ⟨t, Instant.read?_write (Instant.readable_iff.1 (h t ht)) (Or.inl rfl)⟩

/-- The members of a document in the order of the record, with a text for its version. -/
def members (doc : NetworkDocument) (version : Option String) : List (String × Json) :=
  ("network_id", .str doc.networkId) :: ("topology_type", doc.topology.toJson) ::
    (versionMember version ++ (metadataMember doc.metadata ++
      [("providers", tableToJson ProviderEntry.toJson doc.providers),
        ("trust_relationships", .array (doc.relationships.map TrustEntry.toJson))]))

theorem toJson_eq (doc : NetworkDocument) : doc.toJson = .record (doc.members doc.versionText) := by
  rw [toJson, members, versionText, List.append_assoc, List.append_assoc]
  cases doc.registryVersion <;> rfl

/-- What has been read after the members of a document. -/
def draft (doc : NetworkDocument) (version : Option String) : Draft where
  networkId := some doc.networkId
  topology := some (.ofName doc.topology.name)
  registryVersion := version.map Instant.read?
  metadata := writtenMetadata doc.metadata
  providers := some doc.providers
  relationships := some doc.relationships

theorem foldlM_members {doc : NetworkDocument} {version : Option String}
    (h : ∀ s, version = some s → ∃ t, Instant.read? s = some t) :
    (named (doc.members version)).foldlM Draft.read {} = .ok (doc.draft version) := by
  have hnetworkId : Draft.read {} (some "network_id", .str doc.networkId) =
      .ok { networkId := some doc.networkId } := rfl
  have hmetadata := foldlM_metadataMember Draft.read
    (fun t => { networkId := some doc.networkId, topology := some (.ofName doc.topology.name),
                registryVersion := version.map Instant.read?, metadata := t }) rfl
    (fun _ _ => read_metadata rfl) doc.metadata
  rw [members, foldlM_named_cons hnetworkId, foldlM_named_cons (read_topology rfl doc.topology),
    foldlM_named_append (foldlM_versionMember rfl h), foldlM_named_append hmetadata,
    foldlM_named_cons (read_providers rfl doc.providers),
    foldlM_named_cons (read_relationships rfl doc.relationships)]
  rfl

/-- The document with the topology that its name is understood as. -/
def normalized (doc : NetworkDocument) : NetworkDocument :=
  { doc with topology := .ofName doc.topology.name }

theorem finish_some (networkId : String) (topology : Topology)
    (registryVersion : Option (Option Instant)) (metadata : Option (Table String String))
    (providers : Table String ProviderEntry) (relationships : List TrustEntry) :
    Draft.finish ⟨some networkId, some topology, registryVersion, metadata, some providers,
      some relationships⟩ = .ok ⟨networkId, topology, registryVersion.getD none, metadata.getD {},
        providers, relationships⟩ :=
  rfl

/-- The document with the version that a text denotes. -/
def withVersion (doc : NetworkDocument) (version : Option String) : NetworkDocument :=
  { doc.normalized with registryVersion := version.bind Instant.read? }

theorem withVersion_versionText {doc : NetworkDocument}
    (h : ∀ t, doc.registryVersion = some t → t.Readable) :
    doc.withVersion doc.versionText = doc.normalized := by
  rw [withVersion, bind_versionText h]
  rfl

theorem finish_draft (doc : NetworkDocument) (version : Option String) :
    (doc.draft version).finish = .ok (doc.withVersion version) := by
  have hversion : (version.map Instant.read?).getD none = version.bind Instant.read? := by
    cases version <;> rfl
  rw [draft, finish_some, hversion, getD_writtenMetadata]
  rfl

/-- A document is read from its members, with the version that the text denotes. -/
theorem ofJson_members {doc : NetworkDocument} {version : Option String}
    (h : ∀ s, version = some s → ∃ t, Instant.read? s = some t) :
    ofJson (.record (doc.members version)) = .ok (doc.withVersion version) := by
  have hmembers : ofJson (.record (doc.members version)) =
      (named (doc.members version)).foldlM Draft.read {} >>= Draft.finish := rfl
  rw [hmembers, foldlM_members h]
  exact doc.finish_draft version

theorem legible_members (doc : NetworkDocument) (version : Option String) :
    Legible (.record (doc.members version)) := by
  have hversion : ∀ m ∈ versionMember version, Legible m.2 := by
    cases version with
    | none => exact List.forall_mem_nil _
    | some s => exact List.forall_mem_singleton.2 (.str _)
  have hproviders : Legible (tableToJson ProviderEntry.toJson doc.providers) :=
    legible_tableToJson fun e _ => e.2.legible_toJson
  have hrelationships : Legible (.array (doc.relationships.map TrustEntry.toJson)) :=
    legible_array_map fun e _ => e.legible_toJson
  apply Legible.record
  simp only [members, List.forall_mem_append, List.forall_mem_cons]
  exact ⟨.str _, .str _, hversion, fun m hm => legible_of_mem_metadataMember hm, hproviders,
    hrelationships, List.forall_mem_nil _⟩

/-- The text of the members of a document is read as the document. -/
theorem ofJsonText_members {doc : NetworkDocument} {version : Option String}
    (h : ∀ s, version = some s → ∃ t, Instant.read? s = some t) :
    ofJsonText (Json.record (doc.members version)).pretty = .ok (doc.withVersion version) := by
  simp only [ofJsonText, readWhole, (doc.legible_members version).read_pretty, ofJson_members h,
    if_true]

/-- The text of a document reads back as the document, its topology as it is understood. -/
theorem ofJsonText_toJsonText {doc : NetworkDocument}
    (h : ∀ t, doc.registryVersion = some t → t.Readable) :
    ofJsonText doc.toJsonText = .ok doc.normalized := by
  rw [toJsonText, toJson_eq, ofJsonText_members fun s hs => exists_read?_versionText h hs,
    withVersion_versionText h]

end NetworkDocument

end Federation
