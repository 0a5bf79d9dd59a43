import Federation.Proofs.RegisteredPolicy

/-!
# Isolation of networks

A gate answers for a network from its own graph and the policy of its own topology. Other networks
may come, go on or be replaced, and policies of other topologies may be registered, without any
change of its answers. A network that is not there is denied, whatever else there is.
-/

namespace Federation

/-- A change of what a gate reads: a graph is added, in place of an earlier one of its network, or a
policy is registered, in place of an earlier one of its name. -/
inductive GateChange where
  | graph (g : TrustGraph)
  | policy (p : Policy)

namespace GateChange

/-- The snapshots after a change. -/
def snapshots (s : SnapshotSet) : GateChange → SnapshotSet
  | graph g => s.withGraph g
  | policy _ => s

/-- The registry after a change. -/
def registry (r : PolicyRegistry) : GateChange → PolicyRegistry
  | graph _ => r
  | policy p => r.register p

/-- A change does not concern a network: it adds no graph of that name. -/
def SparesNetwork (networkId : String) : GateChange → Prop
  | graph g => g.networkId ≠ networkId
  | policy _ => True

/-- A change does not concern a topology: it registers no policy of that name. -/
def SparesTopology (name : String) : GateChange → Prop
  | graph _ => True
  | policy p => p.topology ≠ name

variable {s : SnapshotSet} {r : PolicyRegistry} {changes : List GateChange}

theorem graph?_snapshots {networkId : String} {c : GateChange} (h : c.SparesNetwork networkId)
    (s : SnapshotSet) : (c.snapshots s).graph? networkId = s.graph? networkId := by
  cases c with
  | graph g =>
    have hname : (networkId == g.networkId) = false := by simpa using Ne.symm h
    rw [snapshots, SnapshotSet.graph?_withGraph, hname]
    rfl
  | policy p => rfl

theorem get?_registry {name : String} {c : GateChange} (h : c.SparesTopology name)
    (r : PolicyRegistry) : (c.registry r).get? name = r.get? name := by
  cases c with
  | graph g => rfl
  | policy p => exact PolicyRegistry.get?_foldl_register (List.forall_mem_singleton.2 h) r

theorem graph?_foldl_snapshots {networkId : String}
    (h : ∀ c ∈ changes, c.SparesNetwork networkId) (s : SnapshotSet) :
    (changes.foldl snapshots s).graph? networkId = s.graph? networkId := by
  induction changes generalizing s with
  | nil => rfl
  | cons c rest ih =>
    obtain ⟨hc, hrest⟩ := List.forall_mem_cons.1 h
    rw [List.foldl_cons, ih hrest, graph?_snapshots hc]

theorem get?_foldl_registry {name : String} (h : ∀ c ∈ changes, c.SparesTopology name)
    (r : PolicyRegistry) : (changes.foldl registry r).get? name = r.get? name := by
  induction changes generalizing r with
  | nil => rfl
  | cons c rest ih =>
    obtain ⟨hc, hrest⟩ := List.forall_mem_cons.1 h
    rw [List.foldl_cons, ih hrest, get?_registry hc]

end GateChange

namespace FederationGate

/-- The gate after changes of what it reads. -/
def after (s : SnapshotSet) (r : PolicyRegistry) (changes : List GateChange) : FederationGate :=
  ofSnapshots (changes.foldl GateChange.snapshots s) (changes.foldl GateChange.registry r)

theorem check_of_unknown {gate : FederationGate} {networkId : String}
    (unknown : gate.lookup networkId = none) (source target : ProviderId) :
    gate.check networkId source target = .unreachable source target := by
  rw [check, unknown]

/-- A check is decided by the graph of the network and the policy of its topology. -/
theorem check_congr {gate gate' : FederationGate} {networkId : String} {g : TrustGraph}
    (found : gate.lookup networkId = some g) (found' : gate'.lookup networkId = some g)
    (same : gate'.registry.forGraph? g = gate.registry.forGraph? g) (source target : ProviderId) :
    gate'.check networkId source target = gate.check networkId source target := by
  simp only [check, found, found', same]

/-- What a gate answers for a network stays as it is when any graphs of other networks are added or
replaced and any policies of other topologies are registered, in any order. For a network that it
does not have it denies everything, even from a provider to itself, until a graph of that network
is added. -/
theorem check_after (s : SnapshotSet) (r : PolicyRegistry) (changes : List GateChange) :
    (∀ networkId g, s.graph? networkId = some g →
      (∀ c ∈ changes, c.SparesNetwork networkId ∧ c.SparesTopology g.topology.name) →
      ∀ source target, (after s r changes).check networkId source target =
        (ofSnapshots s r).check networkId source target) ∧
    (∀ networkId, s.graph? networkId = none → (∀ c ∈ changes, c.SparesNetwork networkId) →
      ∀ source target, (after s r changes).check networkId source target =
        .unreachable source target) := by
  constructor
  · intro networkId g found spared source target
    have found' : (after s r changes).lookup networkId = some g :=
      (GateChange.graph?_foldl_snapshots (fun c hc => (spared c hc).1) s).trans found
    have same : (after s r changes).registry.forGraph? g = (ofSnapshots s r).registry.forGraph? g :=
      GateChange.get?_foldl_registry (fun c hc => (spared c hc).2) r
    exact check_congr found found' same source target
  · intro networkId absent spared source target
    have absent' : (after s r changes).lookup networkId = none :=
      (GateChange.graph?_foldl_snapshots spared s).trans absent
    exact check_of_unknown absent' source target

/-- A set with one network of peers. -/
def peersOnly : SnapshotSet :=
  SnapshotSet.empty.withGraph (meshGraph "peer-to-peer")

/-- Other networks are added and replaced, and the policy of the other built-in topology is
replaced. -/
def elsewhere : List GateChange :=
  [.graph { meshGraph "mesh" with networkId := "other" },
    .policy (PeerToPeer.standard.policy.named "hub-and-spoke"),
    .graph { meshGraph "hub-and-spoke" with networkId := "other" }, .policy (meshPolicy "mesh")]

theorem check_after_elsewhere :
    peersOnly.graph? "net" = some (meshGraph "peer-to-peer") ∧
      (∀ c ∈ elsewhere, c.SparesNetwork "net" ∧
        c.SparesTopology (meshGraph "peer-to-peer").topology.name) ∧
      (after peersOnly .standard elsewhere).check "net" ⟨"a"⟩ ⟨"b"⟩ =
        .along ⟨"a"⟩ ⟨"b"⟩ [⟨"a"⟩, ⟨"b"⟩] ∧
      peersOnly.graph? "third" = none ∧ (∀ c ∈ elsewhere, c.SparesNetwork "third") ∧
      (after peersOnly .standard elsewhere).check "third" ⟨"a"⟩ ⟨"a"⟩ =
        .unreachable ⟨"a"⟩ ⟨"a"⟩ := by
  have found : peersOnly.graph? "net" = some (meshGraph "peer-to-peer") := rfl
  have absent : peersOnly.graph? "third" = none := rfl
  have topology : (meshGraph "peer-to-peer").topology.name = "peer-to-peer" := by decide +kernel
  have spared : ∀ c ∈ elsewhere, c.SparesNetwork "net" ∧
      c.SparesTopology (meshGraph "peer-to-peer").topology.name := by
    rw [topology]
    simp [elsewhere, GateChange.SparesNetwork, GateChange.SparesTopology, Policy.named, meshPolicy]
  have spared' : ∀ c ∈ elsewhere, c.SparesNetwork "third" := by
    simp [elsewhere, GateChange.SparesNetwork]
  have before : (ofSnapshots peersOnly .standard).check "net" ⟨"a"⟩ ⟨"b"⟩ =
      .along ⟨"a"⟩ ⟨"b"⟩ [⟨"a"⟩, ⟨"b"⟩] := by decide +kernel
  obtain ⟨known, unknown⟩ := check_after peersOnly .standard elsewhere
  exact ⟨found, spared, (known _ _ found spared ⟨"a"⟩ ⟨"b"⟩).trans before, absent, spared',
    unknown _ absent spared' ⟨"a"⟩ ⟨"a"⟩⟩

end FederationGate

end Federation
