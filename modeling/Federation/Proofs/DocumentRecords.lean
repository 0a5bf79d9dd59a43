import Federation.Document.Json
import Federation.Proofs.RecordReading
import Mathlib.Data.List.Nodup

/-!
# The records of a document

A reader of members keeps what it knows of every field. What it knows at the end of an object is
what the members give for each field, whatever their order and whatever else there is, and a reader
of items in order finds the same.
-/

namespace Federation

open Federation.Json Federation.Outcome

/-! ### Readers of members -/

/-- A field that a draft keeps the value of. -/
structure DraftField (δ : Type) where
  name : String
  {Value : Type}
  readItem : Json → Read Value
  get : δ → Option Value
  set : δ → Option Value → δ

/-- A step that reads one more member into a draft: the value of a field is kept in its place, and
every other member is passed over. -/
structure MemberReader {δ : Type} (read : δ → Option String × Json → Read δ)
    (fields : List (DraftField δ)) : Prop where
  nodup : (fields.map (·.name)).Nodup
  read_unnamed : ∀ d j d', read d (none, j) ≠ .ok d'
  read_field : ∀ f ∈ fields, ∀ d j, read d (some f.name, j) =
    readField f.name (f.get d) f.readItem j >>= fun x => .ok (f.set d x)
  read_foreign : ∀ name ∉ fields.map (·.name), ∀ d j, read d (some name, j) =
    skip j >>= fun _ => .ok d
  get_set : ∀ f ∈ fields, ∀ d x, f.get (f.set d x) = x
  get_set_of_ne : ∀ f ∈ fields, ∀ g ∈ fields, f.name ≠ g.name →
    ∀ d x, g.get (f.set d x) = g.get d
  ext : ∀ d d', (∀ f ∈ fields, f.get d = f.get d') → d = d'

/-- What members add to what is known of the fields of a draft. -/
structure Gathered {δ : Type} (fields : List (DraftField δ))
    (members : List (Option String × Json)) (d d' : δ) : Prop where
  known : ∀ m ∈ members, Known (fields.map (·.name)) m
  gathers : ∀ f ∈ fields, Gathers f.readItem (f.get d) (valuesOf f.name members) (f.get d')

namespace MemberReader

variable {δ : Type} {read : δ → Option String × Json → Read δ} {fields : List (DraftField δ)}

theorem eq_of_name_eq (reader : MemberReader read fields) {f g : DraftField δ} (hf : f ∈ fields)
    (hg : g ∈ fields) (h : f.name = g.name) : f = g :=
  List.inj_on_of_nodup_map reader.nodup hf hg h

theorem ne_of_foreign {name : String} (h : name ∉ fields.map (·.name)) {g : DraftField δ}
    (hg : g ∈ fields) : name ≠ g.name := by
  rintro rfl
  exact h (List.mem_map_of_mem hg)

/-- The step at a field. -/
theorem read_field_eq_ok_iff (reader : MemberReader read fields) {f : DraftField δ}
    (hf : f ∈ fields) {d d' : δ} {j : Json} :
    read d (some f.name, j) = .ok d' ↔
      Gathers f.readItem (f.get d) [j] (f.get d') ∧ d' = f.set d (f.get d') := by
  rw [reader.read_field f hf, bind_eq_ok_iff]
  constructor
  · rintro ⟨x, hread, heq⟩
    obtain rfl := Except.ok.inj heq
    rw [reader.get_set f hf]
    exact ⟨readField_eq_ok_iff.1 hread, rfl⟩
  · rintro ⟨hgathers, heq⟩
    exact ⟨_, readField_eq_ok_iff.2 hgathers, congrArg _ heq.symm⟩

/-- The step at a member that is no field. -/
theorem read_foreign_eq_ok_iff (reader : MemberReader read fields) {name : String}
    (h : name ∉ fields.map (·.name)) {d d' : δ} {j : Json} :
    read d (some name, j) = .ok d' ↔ j.isWhole = true ∧ d' = d := by
  rw [reader.read_foreign name h, bind_eq_ok_iff, skip]
  split
  · rename_i whole
    exact ⟨fun ⟨_, _, heq⟩ => ⟨whole, (Except.ok.inj heq).symm⟩, fun heq => ⟨(), rfl, heq.2 ▸ rfl⟩⟩
  · rename_i broken
    exact iff_of_false (fun ⟨_, heq, _⟩ => nomatch heq) fun heq => broken heq.1

/-- One member adds to its own field alone. -/
theorem read_eq_ok_iff (reader : MemberReader read fields) {d d' : δ} {m : Option String × Json} :
    read d m = .ok d' ↔ Gathered fields [m] d d' := by
  obtain ⟨_ | name, j⟩ := m
  · refine iff_of_false (reader.read_unnamed d j d') fun h => ?_
    obtain ⟨_, hname, -⟩ := h.known _ List.mem_cons_self
    cases hname
  · by_cases hname : name ∈ fields.map (·.name)
    · obtain ⟨f, hf, rfl⟩ := List.mem_map.1 hname
      rw [reader.read_field_eq_ok_iff hf]
      constructor
      · rintro ⟨hgathers, heq⟩
        refine ⟨List.forall_mem_singleton.2 ⟨f.name, rfl, fun h => absurd hname h⟩, fun g hg => ?_⟩
        by_cases hne : f.name = g.name
        · obtain rfl := reader.eq_of_name_eq hf hg hne
          rwa [valuesOf_self]
        · rw [valuesOf_of_ne hne, gathers_nil, heq, reader.get_set_of_ne f hf g hg hne]
      · rintro ⟨-, hgathers⟩
        have hown := hgathers f hf
        rw [valuesOf_self] at hown
        refine ⟨hown, reader.ext _ _ fun g hg => ?_⟩
        by_cases hne : f.name = g.name
        · obtain rfl := reader.eq_of_name_eq hf hg hne
          rw [reader.get_set f hf]
        · have hother := hgathers g hg
          rw [valuesOf_of_ne hne, gathers_nil] at hother
          rw [reader.get_set_of_ne f hf g hg hne, hother]
    · rw [reader.read_foreign_eq_ok_iff hname]
      have hother : ∀ g ∈ fields, valuesOf g.name [(some name, j)] = [] :=
        fun g hg => valuesOf_of_ne (ne_of_foreign hname hg) j
      constructor
      · rintro ⟨whole, rfl⟩
        refine ⟨List.forall_mem_singleton.2 ⟨name, rfl, fun _ => whole⟩, fun g hg => ?_⟩
        rw [hother g hg]
        exact .nothing _
      · rintro ⟨known, hgathers⟩
        obtain ⟨_, heq, whole⟩ := known _ List.mem_cons_self
        obtain rfl := Option.some.inj heq
        refine ⟨whole hname, reader.ext _ _ fun g hg => ?_⟩
        have hsame := hgathers g hg
        rwa [hother g hg, gathers_nil] at hsame

/-- What is known after the first of several members. -/
theorem exists_read (reader : MemberReader read fields) {m : Option String × Json}
    {more : List (Option String × Json)} {d d' : δ} (known : Known (fields.map (·.name)) m)
    (gathers : ∀ f ∈ fields,
      Gathers f.readItem (f.get d) (valuesOf f.name (m :: more)) (f.get d')) :
    ∃ e, read d m = .ok e ∧
      ∀ f ∈ fields, Gathers f.readItem (f.get e) (valuesOf f.name more) (f.get d') := by
  obtain ⟨_, j⟩ := m
  obtain ⟨name, rfl, whole⟩ := known
  by_cases hname : name ∈ fields.map (·.name)
  · obtain ⟨f, hf, rfl⟩ := List.mem_map.1 hname
    obtain ⟨x, hfirst, hlast⟩ := gathers_members.1 (gathers f hf)
    rw [valuesOf_self] at hfirst
    refine ⟨f.set d x, (reader.read_field_eq_ok_iff hf).2 ?_, fun g hg => ?_⟩
    · rw [reader.get_set f hf]
      exact ⟨hfirst, rfl⟩
    · by_cases hne : f.name = g.name
      · obtain rfl := reader.eq_of_name_eq hf hg hne
        rwa [reader.get_set f hf]
      · have hother := gathers g hg
        rw [valuesOf_cons, valuesOf_of_ne hne, List.nil_append] at hother
        rwa [reader.get_set_of_ne f hf g hg hne]
  · refine ⟨d, (reader.read_foreign_eq_ok_iff hname).2 ⟨whole hname, rfl⟩, fun g hg => ?_⟩
    have hother := gathers g hg
    rwa [valuesOf_cons, valuesOf_of_ne (ne_of_foreign hname hg), List.nil_append] at hother

/-- What is known at the end is what the members give for each field, wherever they stand. -/
theorem foldlM_eq_ok_iff (reader : MemberReader read fields)
    {members : List (Option String × Json)} {d d' : δ} :
    members.foldlM read d = .ok d' ↔ Gathered fields members d d' := by
  induction members generalizing d with
  | nil =>
    constructor
    · intro h
      cases h
      exact ⟨List.forall_mem_nil _, fun f _ => .nothing _⟩
    · intro h
      exact congrArg _ (reader.ext _ _ fun f hf => (gathers_nil.1 (h.gathers f hf)).symm)
  | cons m more ih =>
    rw [List.foldlM_cons, bind_eq_ok_iff]
    constructor
    · rintro ⟨e, hread, hmore⟩
      obtain ⟨hknown, hfirst⟩ := reader.read_eq_ok_iff.1 hread
      obtain ⟨hrest, hlast⟩ := ih.1 hmore
      exact ⟨List.forall_mem_cons.2 ⟨hknown m List.mem_cons_self, hrest⟩, fun f hf =>
        gathers_members.2 ⟨_, hfirst f hf, hlast f hf⟩⟩
    · rintro ⟨known, gathers⟩
      obtain ⟨hm, hmore⟩ := List.forall_mem_cons.1 known
      obtain ⟨e, hread, hrest⟩ := reader.exists_read hm gathers
      exact ⟨e, hread, ih.2 ⟨hmore, hrest⟩⟩

end MemberReader

/-- A field that must be given was given. -/
theorem required_eq_ok_iff {α : Type} {name : String} {known : Option α} {x : α} :
    required name known = .ok x ↔ known = some x := by
  cases known with
  | none => exact iff_of_false nofun nofun
  | some y =>
    exact ⟨fun h => congrArg some (Except.ok.inj h), fun h => congrArg _ (Option.some.inj h)⟩

theorem readRecord_eq_ok_iff {α : Type} {shape : RecordShape} {x : α} {slots : List Slot}
    {ofMembers : List (Option String × Json) → Read α} {ofItems : List Json → Read α}
    (hmembers : ∀ {members}, ofMembers members = .ok x ↔ Presents slots (.object members))
    (hitems : ∀ {items}, ofItems items = .ok x ↔ Fits slots items) {j : Json} :
    readRecord shape ofMembers ofItems j = .ok x ↔ Presents slots j := by
  cases j with
  | object members => exact hmembers
  | array items => exact hitems
  | _ => exact iff_of_false nofun id

theorem readMetadata_nothing : readMetadata (.object []) = .ok {} :=
  rfl

/-! ### Providers -/

namespace ProviderEntry

/-- The fields of a provider's description. -/
def fields : List Field :=
  [⟨"issuer", none⟩, ⟨"role", none⟩, ⟨"metadata", some (.object [])⟩]

/-- The fields with the values of a description. -/
def slots (entry : ProviderEntry) : List Slot :=
  [.required "issuer" readString entry.issuer, .required "role" readString entry.role,
    .optional "metadata" readMetadata {} (.object []) readMetadata_nothing entry.metadata]

theorem slots_fields (entry : ProviderEntry) : entry.slots.map Slot.toField = fields :=
  rfl

def Draft.fields : List (DraftField Draft) :=
  [⟨"issuer", readString, Draft.issuer, fun d x => { d with issuer := x }⟩,
    ⟨"role", readString, Draft.role, fun d x => { d with role := x }⟩,
    ⟨"metadata", readMetadata, Draft.metadata, fun d x => { d with metadata := x }⟩]

theorem Draft.memberReader : MemberReader Draft.read Draft.fields where
  nodup := by decide
  read_unnamed _ _ _ := nofun
  read_field := by
    simp only [fields, List.forall_mem_cons]
    exact ⟨fun _ _ => rfl, fun _ _ => rfl, fun _ _ => rfl, List.forall_mem_nil _⟩
  read_foreign name h d j := by
    simp only [fields, List.map_cons, List.map_nil, List.mem_cons, List.not_mem_nil, or_false,
      not_or] at h
    obtain ⟨hissuer, hrole, hmetadata⟩ := h
    simp only [Draft.read, readName, bind, Except.bind]
    rfl
  get_set := by
    simp [fields]
  get_set_of_ne := by
    simp [fields]
  ext d d' h := by
    simp only [fields, List.forall_mem_cons] at h
    obtain ⟨hissuer, hrole, hmetadata, -⟩ := h
    cases d
    cases d'
    simp_all

theorem Draft.finish_eq_ok_iff {d : Draft} {entry : ProviderEntry} : d.finish = .ok entry ↔
    d.issuer = some entry.issuer ∧ d.role = some entry.role ∧
      d.metadata.getD {} = entry.metadata := by
  simp only [finish, bind_eq_ok_iff, required_eq_ok_iff]
  constructor
  · rintro ⟨_, hissuer, _, hrole, heq⟩
    cases heq
    exact ⟨hissuer, hrole, rfl⟩
  · rintro ⟨hissuer, hrole, hmetadata⟩
    exact ⟨_, hissuer, _, hrole, hmetadata ▸ rfl⟩

theorem ofMembers_eq_ok_iff {members : List (Option String × Json)} {entry : ProviderEntry} :
    ofMembers members = .ok entry ↔ Presents entry.slots (.object members) := by
  simp only [ofMembers, bind_eq_ok_iff, Draft.memberReader.foldlM_eq_ok_iff,
    Draft.finish_eq_ok_iff, Presents, slots, List.forall_mem_cons]
  rw [required_holds_iff, required_holds_iff, optional_holds_iff]
  constructor
  · rintro ⟨d, ⟨known, gathers⟩, hissuer, hrole, hmetadata⟩
    simp only [Draft.fields, List.forall_mem_cons] at gathers
    obtain ⟨issuer, role, metadata, -⟩ := gathers
    exact ⟨known, hissuer ▸ issuer, hrole ▸ role, ⟨_, metadata, hmetadata⟩, List.forall_mem_nil _⟩
  · rintro ⟨known, issuer, role, ⟨_, metadata, hmetadata⟩, -⟩
    refine ⟨⟨_, _, _⟩, ⟨known, ?_⟩, rfl, rfl, hmetadata⟩
    simp only [Draft.fields, List.forall_mem_cons]
    exact ⟨issuer, role, metadata, List.forall_mem_nil _⟩

theorem ofItems_eq_ok_iff {items : List Json} {entry : ProviderEntry} :
    ofItems items = .ok entry ↔ Fits entry.slots items := by
  simp only [ofItems, bind_eq_ok_iff, Prod.exists]
  constructor
  · rintro ⟨_, _, issuer, _, _, role, _, _, metadata, _, stop, heq⟩
    cases heq
    exact fits_required_iff.2 ⟨_, issuer, fits_required_iff.2 ⟨_, role,
      fits_optional_iff.2 ⟨_, metadata, fits_nil_iff.2 stop⟩⟩⟩
  · intro h
    obtain ⟨_, issuer, h⟩ := fits_required_iff.1 h
    obtain ⟨_, role, h⟩ := fits_required_iff.1 h
    obtain ⟨_, metadata, h⟩ := fits_optional_iff.1 h
    exact ⟨_, _, issuer, _, _, role, _, _, metadata, _, fits_nil_iff.1 h, rfl⟩

/-- A tree is read as a description exactly if it presents its fields. -/
theorem ofJson_eq_ok_iff {j : Json} {entry : ProviderEntry} :
    ofJson j = .ok entry ↔ Presents entry.slots j :=
  readRecord_eq_ok_iff ofMembers_eq_ok_iff ofItems_eq_ok_iff

end ProviderEntry

/-! ### Relationships -/

theorem TrustLevel.ofJson_default : ofJson (.str "explicit") = .ok explicit :=
  rfl

namespace TrustEntry

/-- The fields of a relationship's description. -/
def fields : List Field :=
  [⟨"from", none⟩, ⟨"to", none⟩, ⟨"level", some (.str "explicit")⟩]

/-- The fields with the values of a description. -/
def slots (entry : TrustEntry) : List Slot :=
  [.required "from" readString entry.source, .required "to" readString entry.target,
    .optional "level" TrustLevel.ofJson .explicit (.str "explicit") TrustLevel.ofJson_default
      entry.level]

theorem slots_fields (entry : TrustEntry) : entry.slots.map Slot.toField = fields :=
  rfl

def Draft.fields : List (DraftField Draft) :=
  [⟨"from", readString, Draft.source, fun d x => { d with source := x }⟩,
    ⟨"to", readString, Draft.target, fun d x => { d with target := x }⟩,
    ⟨"level", TrustLevel.ofJson, Draft.level, fun d x => { d with level := x }⟩]

theorem Draft.memberReader : MemberReader Draft.read Draft.fields where
  nodup := by decide
  read_unnamed _ _ _ := nofun
  read_field := by
    simp only [fields, List.forall_mem_cons]
    exact ⟨fun _ _ => rfl, fun _ _ => rfl, fun _ _ => rfl, List.forall_mem_nil _⟩
  read_foreign name h d j := by
    simp only [fields, List.map_cons, List.map_nil, List.mem_cons, List.not_mem_nil, or_false,
      not_or] at h
    obtain ⟨hsource, htarget, hlevel⟩ := h
    simp only [Draft.read, readName, bind, Except.bind]
    rfl
  get_set := by
    simp [fields]
  get_set_of_ne := by
    simp [fields]
  ext d d' h := by
    simp only [fields, List.forall_mem_cons] at h
    obtain ⟨hsource, htarget, hlevel, -⟩ := h
    cases d
    cases d'
    simp_all

theorem Draft.finish_eq_ok_iff {d : Draft} {entry : TrustEntry} : d.finish = .ok entry ↔
    d.source = some entry.source ∧ d.target = some entry.target ∧
      d.level.getD .explicit = entry.level := by
  simp only [finish, bind_eq_ok_iff, required_eq_ok_iff]
  constructor
  · rintro ⟨_, hsource, _, htarget, heq⟩
    cases heq
    exact ⟨hsource, htarget, rfl⟩
  · rintro ⟨hsource, htarget, hlevel⟩
    exact ⟨_, hsource, _, htarget, hlevel ▸ rfl⟩

theorem ofMembers_eq_ok_iff {members : List (Option String × Json)} {entry : TrustEntry} :
    ofMembers members = .ok entry ↔ Presents entry.slots (.object members) := by
  simp only [ofMembers, bind_eq_ok_iff, Draft.memberReader.foldlM_eq_ok_iff,
    Draft.finish_eq_ok_iff, Presents, slots, List.forall_mem_cons]
  rw [required_holds_iff, required_holds_iff, optional_holds_iff]
  constructor
  · rintro ⟨d, ⟨known, gathers⟩, hsource, htarget, hlevel⟩
    simp only [Draft.fields, List.forall_mem_cons] at gathers
    obtain ⟨source, target, level, -⟩ := gathers
    exact ⟨known, hsource ▸ source, htarget ▸ target, ⟨_, level, hlevel⟩, List.forall_mem_nil _⟩
  · rintro ⟨known, source, target, ⟨_, level, hlevel⟩, -⟩
    refine ⟨⟨_, _, _⟩, ⟨known, ?_⟩, rfl, rfl, hlevel⟩
    simp only [Draft.fields, List.forall_mem_cons]
    exact ⟨source, target, level, List.forall_mem_nil _⟩

theorem ofItems_eq_ok_iff {items : List Json} {entry : TrustEntry} :
    ofItems items = .ok entry ↔ Fits entry.slots items := by
  simp only [ofItems, bind_eq_ok_iff, Prod.exists]
  constructor
  · rintro ⟨_, _, source, _, _, target, _, _, level, _, stop, heq⟩
    cases heq
    exact fits_required_iff.2 ⟨_, source, fits_required_iff.2 ⟨_, target,
      fits_optional_iff.2 ⟨_, level, fits_nil_iff.2 stop⟩⟩⟩
  · intro h
    obtain ⟨_, source, h⟩ := fits_required_iff.1 h
    obtain ⟨_, target, h⟩ := fits_required_iff.1 h
    obtain ⟨_, level, h⟩ := fits_optional_iff.1 h
    exact ⟨_, _, source, _, _, target, _, _, level, _, fits_nil_iff.1 h, rfl⟩

/-- A tree is read as a description exactly if it presents its fields. -/
theorem ofJson_eq_ok_iff {j : Json} {entry : TrustEntry} :
    ofJson j = .ok entry ↔ Presents entry.slots j :=
  readRecord_eq_ok_iff ofMembers_eq_ok_iff ofItems_eq_ok_iff

end TrustEntry

/-! ### Networks -/

namespace NetworkDocument

/-- The fields of a network's description. -/
def fields : List Field :=
  [⟨"network_id", none⟩, ⟨"topology_type", some (.str "hub-and-spoke")⟩,
    ⟨"registry_version", some .null⟩, ⟨"metadata", some (.object [])⟩,
    ⟨"providers", some (.object [])⟩, ⟨"trust_relationships", some (.array [])⟩]

theorem topology_ofJson_default : Topology.ofJson (.str "hub-and-spoke") = .ok .hubAndSpoke := by
  decide +kernel

theorem readOption_nothing : readOption Instant.ofJson .null = .ok none :=
  rfl

theorem readProviders_nothing : readProviders (.object []) = .ok {} :=
  rfl

theorem readRelationships_nothing : readRelationships (.array []) = .ok [] :=
  rfl

/-- The fields with the values of a description. -/
def slots (doc : NetworkDocument) : List Slot :=
  [.required "network_id" readString doc.networkId,
    .optional "topology_type" Topology.ofJson .hubAndSpoke (.str "hub-and-spoke")
      topology_ofJson_default doc.topology,
    .optional "registry_version" (readOption Instant.ofJson) none .null readOption_nothing
      doc.registryVersion,
    .optional "metadata" readMetadata {} (.object []) readMetadata_nothing doc.metadata,
    .optional "providers" readProviders {} (.object []) readProviders_nothing doc.providers,
    .optional "trust_relationships" readRelationships [] (.array []) readRelationships_nothing
      doc.relationships]

theorem slots_fields (doc : NetworkDocument) : doc.slots.map Slot.toField = fields :=
  rfl

def Draft.fields : List (DraftField Draft) :=
  [⟨"network_id", readString, Draft.networkId, fun d x => { d with networkId := x }⟩,
    ⟨"topology_type", Topology.ofJson, Draft.topology, fun d x => { d with topology := x }⟩,
    ⟨"registry_version", readOption Instant.ofJson, Draft.registryVersion,
      fun d x => { d with registryVersion := x }⟩,
    ⟨"metadata", readMetadata, Draft.metadata, fun d x => { d with metadata := x }⟩,
    ⟨"providers", readProviders, Draft.providers, fun d x => { d with providers := x }⟩,
    ⟨"trust_relationships", readRelationships, Draft.relationships,
      fun d x => { d with relationships := x }⟩]

theorem Draft.memberReader : MemberReader Draft.read Draft.fields where
  nodup := by decide
  read_unnamed _ _ _ := nofun
  read_field := by
    simp only [fields, List.forall_mem_cons]
    exact ⟨fun _ _ => rfl, fun _ _ => rfl, fun _ _ => rfl, fun _ _ => rfl, fun _ _ => rfl,
      fun _ _ => rfl, List.forall_mem_nil _⟩
  read_foreign name h d j := by
    simp only [fields, List.map_cons, List.map_nil, List.mem_cons, List.not_mem_nil, or_false,
      not_or] at h
    obtain ⟨hnetworkId, htopology, hversion, hmetadata, hproviders, hrelationships⟩ := h
    simp only [Draft.read, readName, bind, Except.bind]
    rfl
  get_set := by
    simp [fields]
  get_set_of_ne := by
    simp [fields]
  ext d d' h := by
    simp only [fields, List.forall_mem_cons] at h
    obtain ⟨hnetworkId, htopology, hversion, hmetadata, hproviders, hrelationships, -⟩ := h
    cases d
    cases d'
    simp_all

theorem Draft.finish_eq_ok_iff {d : Draft} {doc : NetworkDocument} : d.finish = .ok doc ↔
    d.networkId = some doc.networkId ∧ d.topology.getD .hubAndSpoke = doc.topology ∧
      d.registryVersion.getD none = doc.registryVersion ∧ d.metadata.getD {} = doc.metadata ∧
      d.providers.getD {} = doc.providers ∧ d.relationships.getD [] = doc.relationships := by
  simp only [finish, bind_eq_ok_iff, required_eq_ok_iff]
  constructor
  · rintro ⟨_, hnetworkId, heq⟩
    cases heq
    exact ⟨hnetworkId, rfl, rfl, rfl, rfl, rfl⟩
  · rintro ⟨hnetworkId, htopology, hversion, hmetadata, hproviders, hrelationships⟩
    refine ⟨_, hnetworkId, ?_⟩
    rw [htopology, hversion, hmetadata, hproviders, hrelationships]
    rfl

theorem ofMembers_eq_ok_iff {members : List (Option String × Json)} {doc : NetworkDocument} :
    ofMembers members = .ok doc ↔ Presents doc.slots (.object members) := by
  simp only [ofMembers, bind_eq_ok_iff, Draft.memberReader.foldlM_eq_ok_iff,
    Draft.finish_eq_ok_iff, Presents, slots, List.forall_mem_cons]
  rw [required_holds_iff, optional_holds_iff, optional_holds_iff, optional_holds_iff,
    optional_holds_iff, optional_holds_iff]
  constructor
  · rintro ⟨d, ⟨known, gathers⟩, hnetworkId, htopology, hversion, hmetadata, hproviders,
      hrelationships⟩
    simp only [Draft.fields, List.forall_mem_cons] at gathers
    obtain ⟨networkId, topology, version, metadata, providers, relationships, -⟩ := gathers
    exact ⟨known, hnetworkId ▸ networkId, ⟨_, topology, htopology⟩, ⟨_, version, hversion⟩,
      ⟨_, metadata, hmetadata⟩, ⟨_, providers, hproviders⟩, ⟨_, relationships, hrelationships⟩,
      List.forall_mem_nil _⟩
  · rintro ⟨known, networkId, ⟨_, topology, htopology⟩, ⟨_, version, hversion⟩,
      ⟨_, metadata, hmetadata⟩, ⟨_, providers, hproviders⟩, ⟨_, relationships, hrelationships⟩, -⟩
    refine ⟨⟨_, _, _, _, _, _⟩, ⟨known, ?_⟩, rfl, htopology, hversion, hmetadata, hproviders,
      hrelationships⟩
    simp only [Draft.fields, List.forall_mem_cons]
    exact ⟨networkId, topology, version, metadata, providers, relationships,
      List.forall_mem_nil _⟩

theorem ofItems_eq_ok_iff {items : List Json} {doc : NetworkDocument} :
    ofItems items = .ok doc ↔ Fits doc.slots items := by
  simp only [ofItems, bind_eq_ok_iff, Prod.exists]
  constructor
  · rintro ⟨_, _, networkId, _, _, topology, _, _, version, _, _, metadata, _, _, providers,
      _, _, relationships, _, stop, heq⟩
    cases heq
    exact fits_required_iff.2 ⟨_, networkId, fits_optional_iff.2 ⟨_, topology,
      fits_optional_iff.2 ⟨_, version, fits_optional_iff.2 ⟨_, metadata,
        fits_optional_iff.2 ⟨_, providers, fits_optional_iff.2 ⟨_, relationships,
          fits_nil_iff.2 stop⟩⟩⟩⟩⟩⟩
  · intro h
    obtain ⟨_, networkId, h⟩ := fits_required_iff.1 h
    obtain ⟨_, topology, h⟩ := fits_optional_iff.1 h
    obtain ⟨_, version, h⟩ := fits_optional_iff.1 h
    obtain ⟨_, metadata, h⟩ := fits_optional_iff.1 h
    obtain ⟨_, providers, h⟩ := fits_optional_iff.1 h
    obtain ⟨_, relationships, h⟩ := fits_optional_iff.1 h
    exact ⟨_, _, networkId, _, _, topology, _, _, version, _, _, metadata, _, _, providers,
      _, _, relationships, _, fits_nil_iff.1 h, rfl⟩

/-- A tree is read as a document exactly if it presents its fields. -/
theorem ofJson_eq_ok_iff {j : Json} {doc : NetworkDocument} :
    ofJson j = .ok doc ↔ Presents doc.slots j :=
  readRecord_eq_ok_iff ofMembers_eq_ok_iff ofItems_eq_ok_iff

end NetworkDocument

end Federation
