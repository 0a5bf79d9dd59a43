import Federation.Proofs.GraphRepresentation

/-!
# Networks of builder runs

The calls to a builder say which providers a network has, which of them are hubs and which trust
which. A graph that is built says the same, whatever the order of the calls was.
-/

namespace Federation

namespace BuilderCall

variable (calls : List BuilderCall)

/-- Some call adds the provider. -/
def Adds (id : ProviderId) : Prop :=
  ∃ node ∈ calls.filterMap provider?, node.id = id

/-- Some call adds the provider as a hub. -/
def AddsHub (id : ProviderId) : Prop :=
  ∃ node ∈ calls.filterMap provider?, node.id = id ∧ node.role = .hub

/-- Some call declares, at whatever level, that one provider trusts another. -/
def Declares (source target : ProviderId) : Prop :=
  ∃ level, addTrust source target level ∈ calls

end BuilderCall

namespace GraphBuilder

variable {networkId : String} {calls : List BuilderCall} {g : TrustGraph}
  (built : (run networkId calls).build = .ok g)
include built

theorem node?_run_iff {id : ProviderId} {node : ProviderNode} :
    g.node? id = some node ↔ node ∈ calls.filterMap BuilderCall.provider? ∧ node.id = id := by
  rw [node?_of_build built, nodes_run]

theorem contains_run_iff {id : ProviderId} :
    g.contains id = true ↔ BuilderCall.Adds calls id := by
  rw [contains_of_build built, nodes_run, List.mem_map]
  rfl

theorem hasHub_run_iff {id : ProviderId} : g.HasHub id ↔ BuilderCall.AddsHub calls id := by
  have isHub_iff : ∀ role : Role, role.isHub = true ↔ role = .hub := by
    intro role
    cases role <;> simp [Role.isHub]
  constructor
  · rintro ⟨node, hnode, hrole⟩
    obtain ⟨hmem, hid⟩ := (node?_run_iff built).1 hnode
    exact ⟨node, hmem, hid, (isHub_iff _).1 hrole⟩
  · rintro ⟨node, hmem, hid, hrole⟩
    exact ⟨node, (node?_run_iff built).2 ⟨hmem, hid⟩, (isHub_iff _).2 hrole⟩

theorem hasEdge_run_iff {source target : ProviderId} :
    g.hasEdge source target = true ↔ BuilderCall.Declares calls source target := by
  rw [hasEdge_of_build built, edges_run, List.mem_map]
  constructor
  · rintro ⟨e, he, hends⟩
    obtain ⟨rfl, rfl⟩ := Prod.mk.inj hends
    exact ⟨e.level, BuilderCall.mem_trusts_iff.1 he⟩
  · rintro ⟨level, h⟩
    exact ⟨⟨source, target, level⟩, BuilderCall.mem_trusts_iff.2 h, rfl⟩

end GraphBuilder

end Federation
