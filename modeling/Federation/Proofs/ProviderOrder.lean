import Federation.Proofs.BuilderRefusals
import Federation.Proofs.QueryAnswers

/-!
# The order of providers

A builder keeps providers in the order in which they were added, and a graph keeps them by their
identifiers. No two providers of a network that is built share an identifier, so that none of them
can take the place of another: the graph is the same in whatever order providers came, and whether
they came before, between or after the declarations of trust.
-/

namespace Federation.GraphBuilder

/-- The builders agree in all that is neither a provider nor declared trust. -/
structure SameSettings (b b' : GraphBuilder) : Prop where
  networkId_eq : b.networkId = b'.networkId
  topology_eq : b.topology = b'.topology
  version_eq : b.version = b'.version
  metadata_eq : b.metadata = b'.metadata

/-- Two runs for one network differ only in the order of their providers, and in how these are mixed
with all other calls. -/
structure Reordered (networkId : String) (calls calls' : List BuilderCall) : Prop where
  settings : SameSettings (run networkId calls) (run networkId calls')
  providers : (calls.filterMap BuilderCall.provider?).Perm (calls'.filterMap BuilderCall.provider?)
  trusts : calls.filterMap BuilderCall.trust? = calls'.filterMap BuilderCall.trust?

/-- A graph keeps nothing of the order of providers that have distinct identifiers. -/
theorem freeze_congr {b b' : GraphBuilder} (settings : SameSettings b b')
    (nodes : b.nodes.Perm b'.nodes) (distinct : (b.nodes.map (·.id)).Nodup)
    (edges : b.edges = b'.edges) : b.freeze = b'.freeze := by
  have hkeys : ((b.nodes.map fun node => (node.id, node)).map (·.1)).Nodup := by
    rw [List.map_map]
    exact distinct
  have htable := Table.ofList_perm (nodes.map fun node => (node.id, node)) hkeys
  rw [freeze, freeze, settings.networkId_eq, settings.topology_eq, settings.version_eq,
    settings.metadata_eq, htable, edges]

namespace Reordered

variable {networkId : String} {calls calls' : List BuilderCall}

theorem symm (h : Reordered networkId calls calls') : Reordered networkId calls' calls where
  settings := ⟨h.settings.networkId_eq.symm, h.settings.topology_eq.symm,
    h.settings.version_eq.symm, h.settings.metadata_eq.symm⟩
  providers := h.providers.symm
  trusts := h.trusts.symm

/-- What is built from a run is built from the other. -/
theorem build_eq_ok (h : Reordered networkId calls calls') {g : TrustGraph}
    (built : (run networkId calls).build = .ok g) : (run networkId calls').build = .ok g := by
  obtain ⟨sound, rfl⟩ := build_eq_ok_iff.1 built
  have sound' : (run networkId calls').Sound :=
    sound_run_iff.2 ((sound_run_iff.1 sound).congr h.providers (.of_eq h.trusts))
  refine build_eq_ok_iff.2 ⟨sound', freeze_congr h.settings ?_ sound.distinct ?_⟩
  · rw [nodes_run, nodes_run]
    exact h.providers
  · rw [edges_run, edges_run]
    exact h.trusts

theorem built_iff (h : Reordered networkId calls calls') {g : TrustGraph} :
    (run networkId calls).build = .ok g ↔ (run networkId calls').build = .ok g :=
  ⟨h.build_eq_ok, h.symm.build_eq_ok⟩

end Reordered

/-- Runs that differ only in the order of their providers build a graph or are refused together.
They build the same graph, with the same providers, edges and hubs, and therefore the same
positions, the same cycle and the same answers to all queries. -/
theorem build_of_reordered (networkId : String) (calls calls' : List BuilderCall)
    (reordered : Reordered networkId calls calls') :
    ((∃ g, (run networkId calls).build = .ok g) ↔ ∃ g, (run networkId calls').build = .ok g) ∧
      ∀ g g', (run networkId calls).build = .ok g → (run networkId calls').build = .ok g' →
        g = g' ∧ Adjacency.ofGraph g = Adjacency.ofGraph g' ∧ g.findCycle = g'.findCycle ∧
          ∀ p : Policy, p.BuiltIn → ∀ source target,
            p.query (some g) source target = p.query (some g') source target := by
  refine ⟨exists_congr fun g => reordered.built_iff, fun g g' built built' => ?_⟩
  obtain rfl : g = g' := Except.ok.inj ((reordered.build_eq_ok built).symm.trans built')
  exact ⟨rfl, rfl, rfl, fun _ _ _ _ => rfl⟩

/-- Two hubs and two peers, the providers in ascending order before all trust. -/
def rollFirst : List BuilderCall :=
  [.addProvider ⟨"a"⟩ "https://a" .peer, .addProvider ⟨"b"⟩ "https://b" .hub,
    .addProviderNode ⟨⟨"c"⟩, "https://c", .hub, .ofList [("tier", "2")]⟩,
    .addProvider ⟨"é"⟩ "https://e" .peer, .setTopology .peerToPeer, .insertMetadata "region" "eu",
    .insertMetadata "stage" "live", .addTrust ⟨"a"⟩ ⟨"c"⟩ .explicit,
    .addTrust ⟨"a"⟩ ⟨"b"⟩ .transitive, .addTrust ⟨"c"⟩ ⟨"é"⟩ .explicit,
    .addTrust ⟨"b"⟩ ⟨"é"⟩ .explicit, .addTrust ⟨"é"⟩ ⟨"a"⟩ .explicit]

/-- The same trust in the same order, with the providers in between and in another order. -/
def rollBetween : List BuilderCall :=
  [.addTrust ⟨"a"⟩ ⟨"c"⟩ .explicit, .addProvider ⟨"é"⟩ "https://e" .peer,
    .addTrust ⟨"a"⟩ ⟨"b"⟩ .transitive, .insertMetadata "stage" "live",
    .addProviderNode ⟨⟨"b"⟩, "https://b", .hub, {}⟩, .addTrust ⟨"c"⟩ ⟨"é"⟩ .explicit,
    .setTopology .hubAndSpoke, .insertMetadata "region" "eu", .addTrust ⟨"b"⟩ ⟨"é"⟩ .explicit,
    .addProviderNode ⟨⟨"c"⟩, "https://c", .hub, .ofList [("tier", "2")]⟩,
    .addTrust ⟨"é"⟩ ⟨"a"⟩ .explicit, .addProvider ⟨"a"⟩ "https://a" .peer, .setTopology .peerToPeer]

theorem reordered_rollBetween : Reordered "net" rollFirst rollBetween where
  settings := ⟨rfl, rfl, rfl, by decide +kernel⟩
  providers := by decide +kernel
  trusts := rfl

/-- The chain over the hub that was trusted first, the hub with the least identifier and the cycle
are those of the other run. -/
theorem build_of_rollBetween :
    Reordered "net" rollFirst rollBetween ∧
      ∃ g, (run "net" rollFirst).build = .ok g ∧ (run "net" rollBetween).build = .ok g ∧
        g.findCycle = (run "net" rollBetween).freeze.findCycle ∧
        (PeerToPeer.standard.policy.trustPath g ⟨"a"⟩ ⟨"é"⟩).path = [⟨"a"⟩, ⟨"c"⟩, ⟨"é"⟩] ∧
        HubAndSpoke.policy.trustPath g ⟨"a"⟩ ⟨"é"⟩ =
          HubAndSpoke.policy.trustPath (run "net" rollBetween).freeze ⟨"a"⟩ ⟨"é"⟩ := by
  have built : (run "net" rollFirst).build = .ok (run "net" rollFirst).freeze := rfl
  have built' : (run "net" rollBetween).build = .ok (run "net" rollBetween).freeze := rfl
  obtain ⟨same, -, cycle, routes⟩ :=
    (build_of_reordered "net" rollFirst rollBetween reordered_rollBetween).2 _ _ built built'
  exact ⟨reordered_rollBetween, _, built, by rw [same, built'], cycle, by decide +kernel,
    routes _ .hubAndSpoke (some ⟨"a"⟩) (some ⟨"é"⟩)⟩

end Federation.GraphBuilder
