import Federation.Document.Yaml
import Federation.Proofs.DocumentTree
import Federation.Proofs.Yaml.Nodes
import Mathlib.Data.List.Nodup

/-!
# Documents as outlines

A document that is made an outline can be read from the node of the outline. Every text comes back
whatever it resembles, since what is expected decides how a scalar is read; only a version that may
be absent asks for more, and no version is written like an absent one.
-/

namespace Federation

open Federation.Yaml

/-! ### Readers of values -/

namespace Yaml

variable {α β : Type} {r : Read α} {x : α} {y : β} {node : Node} {s : String}
  {toYaml : α → Outline} {read : Node → Read α} {members : Members} {field : String}

/-- A reader gives a value without following a repetition. -/
def Gives (r : Read α) (x : α) : Prop :=
  ∀ anchored left, r anchored left = some (x, left)

theorem gives_pure (x : α) : Gives (pure x) x :=
  fun _ _ => rfl

theorem gives_bind {f : α → Read β} (h : Gives r x) (h' : Gives (f x) y) : Gives (r >>= f) y := by
  intro anchored left
  change (r anchored left).bind (fun p => f p.1 anchored p.2) = _
  rw [h]
  exact h' anchored left

theorem gives_map (f : α → β) (h : Gives r x) : Gives (f <$> r) (f x) := by
  rw [map_eq_pure_bind]
  exact gives_bind h (gives_pure (f x))

theorem gives_mapM {γ : Type} {read : β → Read γ} {g : α → β} {f : α → γ} {l : List α}
    (h : ∀ x ∈ l, Gives (read (g x)) (f x)) : Gives ((l.map g).mapM read) (l.map f) := by
  induction l with
  | nil => exact gives_pure []
  | cons x l ih =>
    rw [List.map_cons, List.mapM_cons]
    exact gives_bind (h x List.mem_cons_self)
      (gives_bind (ih fun y hy => h y (List.mem_cons_of_mem _ hy)) (gives_pure _))

theorem gives_resolve (o : Outline) : Gives (resolve o.node) o.node := by
  intro anchored left
  cases o <;> cases left <;> rfl

theorem gives_readText (s : String) : Gives (readText (textNode s)) s :=
  gives_bind (gives_resolve (.text s)) (gives_pure s)

/-! ### Collections -/

theorem itemNodes_eq_map (items : List Outline) : itemNodes items = items.map Outline.node := by
  induction items with
  | nil => rfl
  | cons o items ih => rw [itemNodes, ih, List.map_cons]

theorem entryNodes_eq_map (entries : List (String × Outline)) :
    entryNodes entries = entries.map fun e => (textNode e.1, e.2.node) := by
  induction entries with
  | nil => rfl
  | cons e entries ih => rw [entryNodes, ih, List.map_cons]

/-- A list reads back if its items do. -/
theorem gives_readList {l : List α} (h : ∀ x ∈ l, Gives (read (toYaml x).node) x) :
    Gives (readList read (Outline.list (l.map toYaml)).node) l := by
  have hitems : Gives ((itemNodes (l.map toYaml)).mapM read) l := by
    rw [itemNodes_eq_map, List.map_map]
    have hmap := gives_mapM (f := id) h
    rwa [List.map_id] at hmap
  exact gives_bind (gives_resolve _) hitems

theorem gives_readEntry {e : String × Outline} (h : Gives (read e.2.node) x) :
    Gives (readEntry read (textNode e.1, e.2.node)) (e.1, x) :=
  gives_bind (gives_readText e.1) (gives_bind h (gives_pure _))

/-- A table reads back if its values do. -/
theorem gives_readTable {t : Table String α}
    (h : ∀ e ∈ t.entries, Gives (read (toYaml e.2).node) e.2) :
    Gives (readTable read (tableToYaml toYaml t).node) t := by
  have hentries : Gives ((entryNodes (t.entries.map fun e => (e.1, toYaml e.2))).mapM
      (readEntry read)) t.entries := by
    rw [entryNodes_eq_map, List.map_map]
    have hmap := gives_mapM (f := id) fun e he => gives_readEntry (e := (e.1, toYaml e.2)) (h e he)
    rwa [List.map_id] at hmap
  have htable : Gives (pure (Table.ofList t.entries)) t := by
    rw [Table.ofList_entries]
    exact gives_pure t
  exact gives_bind (gives_resolve _) (gives_bind hentries htable)

/-! ### Records -/

/-- The members of a record read back if no two of them have one name. -/
theorem gives_readMembers {entries : List (String × Outline)} (fields : List String)
    (distinct : (entries.map Prod.fst).Nodup) :
    Gives (readMembers fields (Outline.record entries).node)
      (entries.map fun e => (e.1, e.2.node)) := by
  have hmembers : Gives ((entryNodes entries).mapM (readEntry pure))
      (entries.map fun e => (e.1, e.2.node)) := by
    rw [entryNodes_eq_map]
    exact gives_mapM fun e _ => gives_readEntry (gives_pure e.2.node)
  refine gives_bind (gives_resolve (.record entries)) (gives_bind hmembers ?_)
  have hfields : (fields.all fun f =>
      ((entries.map fun e => (e.1, e.2.node)).filter (·.1 == f)).length ≤ 1) = true := by
    refine List.all_eq_true.2 fun f _ => decide_eq_true ?_
    rw [← List.countP_eq_length_filter, List.countP_map]
    have hcount := List.nodup_iff_count_le_one.1 distinct f
    rwa [List.count, List.countP_map] at hcount
  rw [if_pos hfields]
  exact gives_pure _

theorem gives_required (hfield : members.lookup field = some node) (h : Gives (read node) x) :
    Gives (members.required field read) x := by
  rw [Members.required, hfield]
  exact h

theorem gives_optional (hfield : members.lookup field = some node) (h : Gives (read node) x)
    (absent : α) : Gives (members.optional field read absent) x := by
  rw [Members.optional, hfield]
  exact h

theorem gives_absent (hfield : members.lookup field = none) (absent : α) :
    Gives (members.optional field read absent) absent := by
  rw [Members.optional, hfield]
  exact gives_pure absent

/-- A text that is read as a value is read as one that may be absent: a text that looks like the
absence of a value is not written plain. -/
theorem gives_readOption (h : Gives (read (textNode s)) x) :
    Gives (readOption read (textNode s)) (some x) := by
  refine gives_bind (gives_resolve (.text s)) ?_
  have hnode : (Outline.text s).node = .scalar none (decide (styleOf s = .plain)) s := rfl
  rw [textNode] at h
  rw [hnode]
  -- only a plain scalar can stand for nothing
  by_cases hs : styleOf s = .plain
  · have hother := (of_style_plain hs).1
    simp only [resemblesOther, Bool.or_eq_false_iff, and_assoc] at hother
    obtain ⟨hempty, hnull, -⟩ := hother
    have hword : isNullWord s = false := by
      simpa [isNullWord, nullWords, and_assoc, and_comm, and_left_comm] using hnull
    simp only [hs, decide_true] at h ⊢
    simp only [hempty, hword, Bool.or_self, Bool.false_eq_true, if_false]
    exact gives_map some h
  · simp only [hs, decide_false] at h ⊢
    exact gives_map some h

end Yaml

/-! ### Documents -/

theorem TrustLevel.gives_ofYaml (level : TrustLevel) : Gives (ofYaml level.toYaml.node) level := by
  refine gives_bind (gives_resolve level.toYaml) ?_
  cases level <;> exact gives_pure _

/-- A date is read from its text. -/
theorem Instant.gives_ofYaml {s : String} {t : Instant} (h : read? s = some t) :
    Gives (ofYaml (textNode s)) t := by
  refine gives_bind (gives_readText s) ?_
  rw [h]
  exact gives_pure t

/-- Metadata that is left out is read as empty. -/
theorem gives_metadata {members : Members} {t : Table String String}
    (h : members.lookup "metadata" = ((metadataEntry t).lookup "metadata").map Outline.node) :
    Gives (members.optional "metadata" (readTable readText) {}) t := by
  unfold metadataEntry at h
  split at h
  · rename_i hempty
    obtain rfl : t = {} := Table.ext (List.isEmpty_iff.1 hempty)
    exact gives_absent h _
  · exact gives_optional h (gives_readTable fun e _ => gives_readText e.2) _

theorem names_metadataEntry (t : Table String String) :
    ((metadataEntry t).map Prod.fst).Sublist ["metadata"] := by
  unfold metadataEntry
  split
  · exact List.nil_sublist _
  · exact List.Sublist.refl _

theorem lookup_metadataEntry (t : Table String String) {field : String} (h : field ≠ "metadata") :
    (metadataEntry t).lookup field = none := by
  unfold metadataEntry
  split
  · rfl
  · simp [h]

theorem lookup_members (entries : List (String × Outline)) (field : String) :
    (entries.map fun e => (e.1, e.2.node)).lookup field =
      (entries.lookup field).map Outline.node := by
  induction entries with
  | nil => rfl
  | cons e entries ih =>
    obtain ⟨name, o⟩ := e
    rw [List.map_cons, List.lookup_cons, List.lookup_cons, ih]
    cases field == name <;> rfl

theorem ProviderEntry.gives_ofYaml (entry : ProviderEntry) :
    Gives (ofYaml entry.toYaml.node) entry := by
  have distinct : (["issuer", "role"] ++ (metadataEntry entry.metadata).map Prod.fst).Nodup :=
    ((List.Sublist.refl _).append (names_metadataEntry _)).nodup (by decide)
  refine gives_bind (gives_readMembers _ distinct) ?_
  refine gives_bind (gives_required rfl (gives_readText entry.issuer)) ?_
  refine gives_bind (gives_required rfl (gives_readText entry.role)) ?_
  exact gives_bind (gives_metadata (lookup_members _ _)) (gives_pure entry)

theorem TrustEntry.gives_ofYaml (entry : TrustEntry) :
    Gives (ofYaml entry.toYaml.node) entry := by
  have distinct : ["from", "to", "level"].Nodup := by decide
  refine gives_bind (gives_readMembers _ distinct) ?_
  refine gives_bind (gives_required rfl (gives_readText entry.source)) ?_
  refine gives_bind (gives_required rfl (gives_readText entry.target)) ?_
  exact gives_bind (gives_optional rfl (TrustLevel.gives_ofYaml entry.level) _) (gives_pure entry)

namespace NetworkDocument

/-- The version of the registry as an entry of a mapping, by its text; none for an absent one. -/
def versionEntry : Option String → List (String × Outline)
  | some s => [("registry_version", .text s)]
  | none => []

/-- The entries of a document after its topology, with a text for its version. -/
def laterEntries (doc : NetworkDocument) (version : Option String) : List (String × Outline) :=
  versionEntry version ++ (metadataEntry doc.metadata ++
    [("providers", tableToYaml ProviderEntry.toYaml doc.providers),
      ("trust_relationships", .list (doc.relationships.map TrustEntry.toYaml))])

/-- The entries of a document, with a text for its version. -/
def entries (doc : NetworkDocument) (version : Option String) : List (String × Outline) :=
  ("network_id", .text doc.networkId) :: ("topology_type", .text doc.topology.name) ::
    doc.laterEntries version

theorem toYaml_eq (doc : NetworkDocument) : doc.toYaml = .record (doc.entries doc.versionText) := by
  rw [toYaml, entries, laterEntries, versionText, List.append_assoc, List.append_assoc]
  cases doc.registryVersion <;> rfl

theorem distinct_entries (doc : NetworkDocument) (version : Option String) :
    ((doc.entries version).map Prod.fst).Nodup := by
  have hversion : ((versionEntry version).map Prod.fst).Sublist ["registry_version"] := by
    cases version with
    | none => exact List.nil_sublist _
    | some s => exact List.Sublist.refl _
  have hnames := hversion.append ((names_metadataEntry doc.metadata).append
    (List.Sublist.refl ["providers", "trust_relationships"]))
  have hfields : fieldNames.Nodup := by decide
  rw [entries, laterEntries, List.map_cons, List.map_cons, List.map_append, List.map_append]
  exact ((List.Sublist.refl ["network_id", "topology_type"]).append hnames).nodup hfields

theorem lookup_versionEntry (version : Option String) {field : String}
    (h : field ≠ "registry_version") : (versionEntry version).lookup field = none := by
  cases version with
  | none => rfl
  | some s => simp [versionEntry, h]

theorem gives_version {members : Members} {version : Option String}
    (hversion : members.lookup "registry_version" =
      ((versionEntry version).lookup "registry_version").map Outline.node)
    (h : ∀ s, version = some s → ∃ t, Instant.read? s = some t) :
    Gives (members.optional "registry_version" (readOption Instant.ofYaml) none)
      (version.bind Instant.read?) := by
  cases version with
  | none => exact gives_absent hversion none
  | some s =>
    obtain ⟨t, ht⟩ := h s rfl
    rw [Option.bind_some, ht]
    exact gives_optional hversion (gives_readOption (Instant.gives_ofYaml ht)) none

section Lookup

variable (doc : NetworkDocument) (version : Option String)

theorem lookup_version : (doc.laterEntries version).lookup "registry_version" =
    (versionEntry version).lookup "registry_version" := by
  rw [laterEntries, List.lookup_append, List.lookup_append, lookup_metadataEntry _ (by decide)]
  exact Option.or_none

theorem lookup_metadata : (doc.laterEntries version).lookup "metadata" =
    (metadataEntry doc.metadata).lookup "metadata" := by
  rw [laterEntries, List.lookup_append, List.lookup_append, lookup_versionEntry _ (by decide)]
  exact Option.or_none

theorem lookup_providers : (doc.laterEntries version).lookup "providers" =
    some (tableToYaml ProviderEntry.toYaml doc.providers) := by
  rw [laterEntries, List.lookup_append, List.lookup_append, lookup_versionEntry _ (by decide),
    lookup_metadataEntry _ (by decide)]
  rfl

theorem lookup_relationships : (doc.laterEntries version).lookup "trust_relationships" =
    some (.list (doc.relationships.map TrustEntry.toYaml)) := by
  rw [laterEntries, List.lookup_append, List.lookup_append, lookup_versionEntry _ (by decide),
    lookup_metadataEntry _ (by decide)]
  rfl

theorem lookup_laterEntries {field : String} {o : Option Outline}
    (h : (doc.laterEntries version).lookup field = o) (hid : field ≠ "network_id")
    (htopology : field ≠ "topology_type") :
    ((doc.entries version).map fun e => (e.1, e.2.node)).lookup field = o.map Outline.node := by
  simp only [entries, lookup_members, List.lookup_cons, beq_false_of_ne hid,
    beq_false_of_ne htopology, h]

end Lookup

/-- A document is read from its entries, with the version that the text denotes. -/
theorem gives_ofYaml {doc : NetworkDocument} {version : Option String}
    (h : ∀ s, version = some s → ∃ t, Instant.read? s = some t) :
    Gives (ofYaml (Outline.record (doc.entries version)).node) (doc.withVersion version) := by
  have hlater {field : String} {o : Option Outline}
      (hlookup : (doc.laterEntries version).lookup field = o) :=
    doc.lookup_laterEntries version hlookup
  have hproviders := gives_readTable fun e (_ : e ∈ doc.providers.entries) => e.2.gives_ofYaml
  have hrelationships := gives_readList fun e (_ : e ∈ doc.relationships) => e.gives_ofYaml
  refine gives_bind (gives_readMembers _ (doc.distinct_entries version)) ?_
  refine gives_bind (gives_required rfl (gives_readText doc.networkId)) ?_
  refine gives_bind (gives_optional rfl (gives_map _ (gives_readText doc.topology.name)) _) ?_
  refine gives_bind
    (gives_version (hlater (doc.lookup_version version) (by decide) (by decide)) h) ?_
  refine gives_bind
    (gives_metadata (hlater (doc.lookup_metadata version) (by decide) (by decide))) ?_
  refine gives_bind
    (gives_optional (hlater (doc.lookup_providers version) (by decide) (by decide)) hproviders _) ?_
  refine gives_bind (gives_optional
    (hlater (doc.lookup_relationships version) (by decide) (by decide)) hrelationships _) ?_
  exact gives_pure _

/-- The text of the entries of a document is read as the document. -/
theorem ofYamlText?_entries {doc : NetworkDocument} {version : Option String}
    (h : ∀ s, version = some s → ∃ t, Instant.read? s = some t) :
    ofYamlText? (Outline.record (doc.entries version)).write = some (doc.withVersion version) := by
  have hread : Gives (ofYaml (Outline.record (doc.entries version)).node)
      (doc.withVersion version) := gives_ofYaml h
  rw [entries] at hread ⊢
  rw [ofYamlText?, Document.ofText?_write]
  change ((ofYaml _ _ _).map Prod.fst) = _
  rw [hread]
  rfl

/-- The text of a document reads back as the document, its topology as it is understood. -/
theorem ofYamlText?_toYamlText {doc : NetworkDocument}
    (admitted : ∀ t, doc.registryVersion = some t → Instant.admits t.date = true) :
    ofYamlText? doc.toYamlText = some doc.normalized := by
  have readable : ∀ t, doc.registryVersion = some t → t.Readable :=
    fun t ht => Instant.readable_iff.2 (admitted t ht)
  rw [toYamlText, toYaml_eq, ofYamlText?_entries fun s hs => exists_read?_versionText readable hs,
    withVersion_versionText readable]

end NetworkDocument

end Federation
