import Federation.Proofs.NamedTopology
import Federation.Proofs.Permission

/-!
# Registered policies

A registry answers with the policy that was registered last under the name that a graph has for its
topology. That is the name without white space around it, so a policy whose own name has white space
around it serves no graph that is given this name.
-/

namespace Federation

/-- A policy is the last one of a list that has a name. -/
def Policy.IsLast (p : Policy) (name : String) (policies : List Policy) : Prop :=
  ∃ before after, policies = before ++ p :: after ∧ p.topology = name ∧
    ∀ q ∈ after, q.topology ≠ name

namespace PolicyRegistry

/-- A registry that begins empty or as the standard one, with what was registered in it, one policy
after another. -/
inductive Holds : PolicyRegistry → List Policy → Prop where
  | empty : Holds .empty []
  | standard : Holds .standard [HubAndSpoke.policy, PeerToPeer.standard.policy]
  | register {r : PolicyRegistry} {policies : List Policy} (h : Holds r policies) (p : Policy) :
      Holds (r.register p) (policies ++ [p])

/-- Policies that are registered under other names change nothing for a name. -/
theorem get?_foldl_register {policies : List Policy} {name : String}
    (others : ∀ q ∈ policies, q.topology ≠ name) (r : PolicyRegistry) :
    (policies.foldl register r).get? name = r.get? name := by
  induction policies generalizing r with
  | nil => rfl
  | cons p rest ih =>
    have hname : (name == p.topology) = false := by simpa using (others p List.mem_cons_self).symm
    rw [List.foldl_cons, ih fun q hq => others q (List.mem_cons_of_mem _ hq), get?_register, hname]
    rfl

theorem eq_foldl_of_holds {r : PolicyRegistry} {policies : List Policy} (h : Holds r policies) :
    r = policies.foldl register empty := by
  induction h with
  | empty => rfl
  | standard => rfl
  | register _ p ih => rw [List.foldl_append, ← ih]; rfl

/-- The last policy of a name is the one that a registry has under it. -/
theorem get?_of_isLast {r : PolicyRegistry} {policies : List Policy} (h : Holds r policies)
    {p : Policy} {name : String} (last : p.IsLast name policies) : r.get? name = some p := by
  obtain ⟨before, after, rfl, rfl, others⟩ := last
  rw [eq_foldl_of_holds h, List.foldl_append, List.foldl_cons, get?_foldl_register others,
    get?_register, if_pos (beq_self_eq_true _)]

theorem mem_topologies_register {r : PolicyRegistry} {p : Policy} {name : String} :
    name ∈ (r.register p).topologies ↔ name = p.topology ∨ name ∈ r.topologies := by
  rw [topologies, topologies, ← Table.contains_iff, ← Table.contains_iff, register,
    Table.contains_insert, Bool.or_eq_true, beq_iff_eq]

/-- The names that a registry lists are those of the policies that were registered. -/
theorem mem_topologies_iff {r : PolicyRegistry} {policies : List Policy} (h : Holds r policies)
    {name : String} : name ∈ r.topologies ↔ ∃ p ∈ policies, p.topology = name := by
  have hempty : name ∉ empty.topologies := List.not_mem_nil
  induction h with
  | empty => simp [hempty]
  | standard =>
    rw [standard, mem_topologies_register, mem_topologies_register]
    simp [hempty, or_comm, eq_comm]
  | register _ p ih =>
    refine mem_topologies_register.trans ((or_congr_right ih).trans ?_)
    simp [or_and_right, exists_or, or_comm, eq_comm]

/-- Whatever order the names come in, sorting them gives the list. -/
theorem mergeSort_topologies {r : PolicyRegistry} {policies : List Policy} (h : Holds r policies)
    {names : List String} (distinct : names.Nodup)
    (hnames : ∀ name, name ∈ names ↔ ∃ p ∈ policies, p.topology = name) :
    names.mergeSort = r.topologies :=
  Table.mergeSort_eq_keys distinct fun name => (hnames name).trans (mem_topologies_iff h).symm

end PolicyRegistry

namespace FederationGate

/-- Whatever registry is made by registering policies, a graph is served by the policy that was
registered last under the name of its topology without white space around it: the registry finds it,
and a gate that finds the graph, in a set or elsewhere, answers what it answers. Policies that are
registered under other names change none of this. -/
theorem check_of_isLast {r : PolicyRegistry} {policies : List Policy} (held : r.Holds policies)
    {g : TrustGraph} {name : String} (named : g.NamedAs name) {p : Policy}
    (last : p.IsLast (Text.trim name) policies) (others : List Policy)
    (other_names : ∀ q ∈ others, q.topology ≠ Text.trim name) :
    r.forGraph? g = some p ∧ (others.foldl PolicyRegistry.register r).forGraph? g = some p ∧
      ∀ (lookup : String → Option TrustGraph) (networkId : String), lookup networkId = some g →
        ∀ source target : ProviderId,
          FederationGate.check ⟨lookup, r⟩ networkId source target =
            p.trustPath g source target ∧
          FederationGate.check ⟨lookup, others.foldl PolicyRegistry.register r⟩ networkId source
            target = p.trustPath g source target := by
  have name_eq : g.topology.name = Text.trim name := by rw [named.topology_eq, Topology.name_ofName]
  have served : r.forGraph? g = some p := by
    rw [PolicyRegistry.forGraph?, name_eq, PolicyRegistry.get?_of_isLast held last]
  have served' : (others.foldl PolicyRegistry.register r).forGraph? g = some p := by
    rw [PolicyRegistry.forGraph?, name_eq, PolicyRegistry.get?_foldl_register other_names,
      PolicyRegistry.get?_of_isLast held last]
  refine ⟨served, served', fun lookup networkId found source target => ⟨?_, ?_⟩⟩
  · simp only [check, found, served]
  · simp only [check, found, served']

/-- A network of two providers, one of which trusts the other, whose topology is given as a name. -/
def meshCalls (name : String) : List BuilderCall :=
  [.addProvider ⟨"a"⟩ "https://a" .peer, .setTopology .peerToPeer,
    .addTrust ⟨"a"⟩ ⟨"b"⟩ .explicit] ++
  .setTopology (.ofName name) :: [.addProvider ⟨"b"⟩ "https://b" .peer]

def meshGraph (name : String) : TrustGraph :=
  (GraphBuilder.run "net" (meshCalls name)).freeze

theorem namedAs_meshGraph {name : String}
    (built : (GraphBuilder.run "net" (meshCalls name)).build = .ok (meshGraph name)) :
    (meshGraph name).NamedAs name := by
  have last : ∀ topology, BuilderCall.setTopology topology ∉
      [BuilderCall.addProvider ⟨"b"⟩ "https://b" .peer] := by
    intro topology h
    cases List.mem_singleton.1 h
  rw [meshCalls] at built
  exact .built last built

/-- Peer-to-peer routing under another name. -/
def meshPolicy (name : String) : Policy :=
  PeerToPeer.standard.policy.named name

/-- A policy that was registered in place of an earlier one serves a graph that names it with white
space around the name. -/
theorem check_mesh :
    ((PolicyRegistry.standard.register (HubAndSpoke.policy.named "mesh")).register
        (meshPolicy "mesh")).Holds
      [HubAndSpoke.policy, PeerToPeer.standard.policy, HubAndSpoke.policy.named "mesh",
        meshPolicy "mesh"] ∧
      (meshGraph "\u2003mesh ").NamedAs "\u2003mesh " ∧
      (meshPolicy "mesh").IsLast (Text.trim "\u2003mesh ")
        [HubAndSpoke.policy, PeerToPeer.standard.policy, HubAndSpoke.policy.named "mesh",
          meshPolicy "mesh"] ∧
      (SnapshotSet.empty.withGraph (meshGraph "\u2003mesh ")).graph? "net" =
        some (meshGraph "\u2003mesh ") ∧
      (ofSnapshots (SnapshotSet.empty.withGraph (meshGraph "\u2003mesh "))
        ((PolicyRegistry.standard.register (HubAndSpoke.policy.named "mesh")).register
          (meshPolicy "mesh"))).check "net" ⟨"a"⟩ ⟨"b"⟩ =
        (meshPolicy "mesh").trustPath (meshGraph "\u2003mesh ") ⟨"a"⟩ ⟨"b"⟩ ∧
      (meshPolicy "mesh").trustPath (meshGraph "\u2003mesh ") ⟨"a"⟩ ⟨"b"⟩ =
        .along ⟨"a"⟩ ⟨"b"⟩ [⟨"a"⟩, ⟨"b"⟩] := by
  have held : ((PolicyRegistry.standard.register (HubAndSpoke.policy.named "mesh")).register
        (meshPolicy "mesh")).Holds
      [HubAndSpoke.policy, PeerToPeer.standard.policy, HubAndSpoke.policy.named "mesh",
        meshPolicy "mesh"] := .register (.register .standard _) _
  have trimmed : Text.trim "\u2003mesh " = "mesh" := by decide +kernel
  have last : (meshPolicy "mesh").IsLast (Text.trim "\u2003mesh ")
      [HubAndSpoke.policy, PeerToPeer.standard.policy, HubAndSpoke.policy.named "mesh",
        meshPolicy "mesh"] := by
    refine ⟨[HubAndSpoke.policy, PeerToPeer.standard.policy, HubAndSpoke.policy.named "mesh"], [],
      rfl, trimmed.symm, ?_⟩
    intro q hq
    cases hq
  have found : (SnapshotSet.empty.withGraph (meshGraph "\u2003mesh ")).graph? "net" =
      some (meshGraph "\u2003mesh ") := rfl
  have named : (meshGraph "\u2003mesh ").NamedAs "\u2003mesh " := namedAs_meshGraph rfl
  obtain ⟨-, -, checked⟩ := check_of_isLast held named last [] (List.forall_mem_nil _)
  exact ⟨held, named, last, found, (checked _ _ found ⟨"a"⟩ ⟨"b"⟩).1, by decide +kernel⟩

/-- A policy that is registered under a name with white space around it does not serve a graph that
is given the same name. -/
theorem check_paddedMesh :
    (PolicyRegistry.standard.register (meshPolicy " mesh")).Holds
      [HubAndSpoke.policy, PeerToPeer.standard.policy, meshPolicy " mesh"] ∧
      (meshGraph " mesh").NamedAs " mesh" ∧
      (meshPolicy " mesh").IsLast " mesh"
        [HubAndSpoke.policy, PeerToPeer.standard.policy, meshPolicy " mesh"] ∧
      (PolicyRegistry.standard.register (meshPolicy " mesh")).forGraph? (meshGraph " mesh") =
        none ∧
      (SnapshotSet.empty.withGraph (meshGraph " mesh")).graph? "net" = some (meshGraph " mesh") ∧
      (ofSnapshots (SnapshotSet.empty.withGraph (meshGraph " mesh"))
        (PolicyRegistry.standard.register (meshPolicy " mesh"))).check "net" ⟨"a"⟩ ⟨"b"⟩ ≠
        (meshPolicy " mesh").trustPath (meshGraph " mesh") ⟨"a"⟩ ⟨"b"⟩ := by
  have unserved : (PolicyRegistry.standard.register (meshPolicy " mesh")).forGraph?
      (meshGraph " mesh") = none := by
    have name_eq : (meshGraph " mesh").topology.name = "mesh" := by decide +kernel
    have others : ∀ q ∈ [meshPolicy " mesh"], q.topology ≠ "mesh" := by
      intro q hq
      obtain rfl := List.mem_singleton.1 hq
      decide
    rw [PolicyRegistry.forGraph?, name_eq]
    exact PolicyRegistry.get?_foldl_register others PolicyRegistry.standard
  refine ⟨.register .standard _, namedAs_meshGraph rfl, ?_, unserved, rfl, ?_⟩
  · refine ⟨[HubAndSpoke.policy, PeerToPeer.standard.policy], [], rfl, rfl, ?_⟩
    intro q hq
    cases hq
  · decide +kernel

end FederationGate

end Federation
