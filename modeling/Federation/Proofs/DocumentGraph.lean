import Federation.Document.Graph
import Federation.Document.Validation
import Federation.Proofs.GraphRepresentation

/-!
# Graphs of valid documents

What a document is checked for is enough for its graph to be built. The graph then has the providers
and the relationships of the document, and its topology.
-/

namespace Federation.NetworkDocument

variable {doc : NetworkDocument}

/-- A document without violations. -/
structure Sound (doc : NetworkDocument) : Prop where
  named : Text.isBlank doc.networkId = false
  described : ∀ id entry, doc.providers.get? id = some entry →
    Text.isBlank id = false ∧ Text.isBlank entry.issuer = false ∧ Text.isBlank entry.role = false
  connected : ∀ e ∈ doc.relationships,
    doc.providers.contains e.source = true ∧ doc.providers.contains e.target = true

theorem providerViolation?_eq_none_iff (id : String) (entry : ProviderEntry) :
    providerViolation? id entry = none ↔
      Text.isBlank id = false ∧ Text.isBlank entry.issuer = false ∧
        Text.isBlank entry.role = false := by
  unfold providerViolation?
  cases Text.isBlank id <;> cases Text.isBlank entry.issuer <;> cases Text.isBlank entry.role <;>
    simp

theorem relationshipViolation?_eq_none_iff (doc : NetworkDocument) (entry : TrustEntry)
    (position : Nat) :
    doc.relationshipViolation? entry position = none ↔
      doc.providers.contains entry.source = true ∧ doc.providers.contains entry.target = true := by
  unfold relationshipViolation?
  cases doc.providers.contains entry.source <;> cases doc.providers.contains entry.target <;> simp

/-- A document is valid exactly when nothing is wrong with any of its parts. -/
theorem validate_eq_ok_iff : doc.validate = .ok () ↔ doc.Sound := by
  have hviolation : doc.validate = .ok () ↔ doc.violation? = none := by
    unfold validate
    cases doc.violation? <;> simp
  have providers : (doc.providers.entries.findSome? fun e => providerViolation? e.1 e.2) = none ↔
      ∀ id entry, doc.providers.get? id = some entry → Text.isBlank id = false ∧
        Text.isBlank entry.issuer = false ∧ Text.isBlank entry.role = false := by
    simp only [List.findSome?_eq_none_iff, Prod.forall, providerViolation?_eq_none_iff,
      Table.get?_eq_some_iff]
  have relationships :
      (doc.relationships.zipIdx.findSome? fun e => doc.relationshipViolation? e.1 e.2) = none ↔
        ∀ e ∈ doc.relationships,
          doc.providers.contains e.source = true ∧ doc.providers.contains e.target = true := by
    have hfst := List.forall_mem_map (f := Prod.fst) (l := doc.relationships.zipIdx) (P := fun e =>
      doc.providers.contains e.source = true ∧ doc.providers.contains e.target = true)
    rw [List.zipIdx_map_fst] at hfst
    rw [hfst]
    simp only [List.findSome?_eq_none_iff, relationshipViolation?_eq_none_iff]
  rw [hviolation, violation?]
  cases hnamed : Text.isBlank doc.networkId with
  | true =>
    refine ⟨fun h => by simp at h, fun h => ?_⟩
    rw [h.named] at hnamed
    cases hnamed
  | false =>
    rw [if_neg Bool.false_ne_true, Option.or_eq_none_iff, providers, relationships]
    exact ⟨fun h => ⟨hnamed, h.1, h.2⟩, fun h => ⟨h.described, h.connected⟩⟩

theorem isEmpty_of_isBlank {text : String} (h : Text.isBlank text = false) :
    text.isEmpty = false := by
  by_contra hempty
  obtain rfl : text = "" := by simpa using hempty
  cases h

/-- The identifiers of the nodes are those of the providers. -/
theorem map_id_nodes_toBuilder :
    doc.toBuilder.nodes.map (·.id) = doc.providers.keys.map ProviderId.mk := by
  simp only [toBuilder, nodeOf, Table.keys, List.map_map, Function.comp_def]

theorem mem_ids_toBuilder {id : String} :
    ⟨id⟩ ∈ doc.toBuilder.nodes.map (·.id) ↔ doc.providers.contains id = true := by
  rw [map_id_nodes_toBuilder, Table.contains_iff, List.mem_map]
  constructor
  · rintro ⟨key, hkey, heq⟩
    exact ProviderId.mk.inj heq ▸ hkey
  · exact fun h => ⟨id, h, rfl⟩

/-- The network that a sound document describes passes the checks of the builder. -/
theorem Sound.toBuilder (sound : doc.Sound) : doc.toBuilder.Sound where
  named := sound.named
  identified node hnode := by
    obtain ⟨⟨id, entry⟩, hentry, rfl⟩ := List.mem_map.1 hnode
    exact isEmpty_of_isBlank (sound.described id entry (Table.get?_eq_some_iff.2 hentry)).1
  distinct := by
    rw [map_id_nodes_toBuilder]
    exact doc.providers.keys_nodup.map fun _ _ heq => ProviderId.mk.inj heq
  connected e he := by
    obtain ⟨entry, hentry, rfl⟩ := List.mem_map.1 he
    have ends := sound.connected entry hentry
    exact ⟨mem_ids_toBuilder.2 ends.1, mem_ids_toBuilder.2 ends.2⟩

/-- The graph of a valid document is built, since the builder checks for no more. -/
theorem toGraph_of_validate (valid : doc.validate = .ok ()) :
    doc.toGraph = .ok doc.toBuilder.freeze :=
  GraphBuilder.build_eq_ok_iff.2 ⟨(validate_eq_ok_iff.1 valid).toBuilder, rfl⟩

/-- A relationship runs from one provider of the document to another. -/
def Relates (doc : NetworkDocument) (source target : String) : Prop :=
  ∃ e ∈ doc.relationships, e.source = source ∧ e.target = target

/-- A provider of the document has the role of a hub, as it is written. -/
def IsHub (doc : NetworkDocument) (id : String) : Prop :=
  ∃ entry, doc.providers.get? id = some entry ∧ entry.role = "hub"

section Built

variable {g : TrustGraph} (built : doc.toGraph = .ok g)
include built

theorem topology_of_toGraph : g.topology = doc.topology := by
  obtain ⟨_, rfl⟩ := GraphBuilder.build_eq_ok_iff.1 built
  rfl

theorem node?_toGraph_iff {id : String} {node : ProviderNode} :
    g.node? ⟨id⟩ = some node ↔
      ∃ entry, doc.providers.get? id = some entry ∧ node = nodeOf id entry := by
  rw [GraphBuilder.node?_of_build built, toBuilder, List.mem_map]
  constructor
  · rintro ⟨⟨⟨key, entry⟩, hentry, rfl⟩, hid⟩
    obtain rfl := ProviderId.mk.inj hid
    exact ⟨entry, Table.get?_eq_some_iff.2 hentry, rfl⟩
  · rintro ⟨entry, hentry, rfl⟩
    exact ⟨⟨(id, entry), Table.get?_eq_some_iff.1 hentry, rfl⟩, rfl⟩

/-- The graph has an edge exactly where the document has a relationship. -/
theorem hasEdge_toGraph_iff {source target : String} :
    g.hasEdge ⟨source⟩ ⟨target⟩ = true ↔ doc.Relates source target := by
  rw [GraphBuilder.hasEdge_of_build built, toBuilder, List.map_map, List.mem_map]
  refine exists_congr fun e => and_congr_right fun _ => ?_
  simp [TrustEdge.ends, edgeOf]

/-- The hubs of the graph are the providers whose role is written so. -/
theorem hasHub_toGraph_iff {id : String} : g.HasHub ⟨id⟩ ↔ doc.IsHub id := by
  constructor
  · rintro ⟨node, hnode, hrole⟩
    obtain ⟨entry, hentry, rfl⟩ := (node?_toGraph_iff built).1 hnode
    exact ⟨entry, hentry, Role.isHub_ofTag.1 hrole⟩
  · rintro ⟨entry, hentry, hrole⟩
    exact ⟨nodeOf id entry, (node?_toGraph_iff built).2 ⟨entry, hentry, rfl⟩,
      Role.isHub_ofTag.2 hrole⟩

end Built

end Federation.NetworkDocument
