import Federation.Proofs.BuilderRuns
import Federation.Proofs.RouteLength

/-!
# More trust

A run of a builder that says more than another one adds further providers or declares further trust,
anywhere among its calls. Searches on its graph go other ways and find other hubs. Yet no route is
lost, and none gets longer.
-/

namespace Federation

/-- A second run adds all providers of the first one, hubs as hubs and others as others, and
declares all its trust. -/
structure BuilderCall.Extends (calls calls' : List BuilderCall) : Prop where
  adds : ∀ id, Adds calls id → Adds calls' id
  addsHub_iff : ∀ id, Adds calls id → (AddsHub calls id ↔ AddsHub calls' id)
  declares : ∀ source target, Declares calls source target → Declares calls' source target

namespace GraphBuilder

section Extends

variable {networkId networkId' : String} {calls calls' : List BuilderCall} {g g' : TrustGraph}
  (built : (run networkId calls).build = .ok g) (built' : (run networkId' calls').build = .ok g')
  (more : BuilderCall.Extends calls calls')
include built built' more

theorem hasEdge_mono {source target : ProviderId} (edge : g.hasEdge source target = true) :
    g'.hasEdge source target = true := by
  apply (hasEdge_run_iff built').2
  exact more.declares source target ((hasEdge_run_iff built).1 edge)

theorem trusts_mono {source target : ProviderId} (h : g.Trusts source target) :
    g'.Trusts source target := by
  apply (wellFormed_of_build built').hasEdge_iff.1
  exact hasEdge_mono built built' more ((wellFormed_of_build built).hasEdge_iff.2 h)

/-- A provider of the smaller graph is a hub in both graphs or in none. -/
theorem hasHub_iff_of_contains {id : ProviderId} (h : g.contains id = true) :
    g.HasHub id ↔ g'.HasHub id := by
  rw [hasHub_run_iff built, hasHub_run_iff built']
  exact more.addsHub_iff id ((contains_run_iff built).1 h)

/-- The rules of hub-and-spoke networks lead at least as far in the larger graph. -/
theorem connects_mono {source target : ProviderId} {n : Nat}
    (h : HubAndSpoke.Connects g source target n) : HubAndSpoke.Connects g' source target n := by
  have wf := wellFormed_of_build built
  cases h with
  | same => exact .same source
  | direct edge => exact .direct (hasEdge_mono built built' more edge)
  | relayed hsource htarget hhub first last =>
    -- the edges at the hub make the ends providers, so that they are no hubs in both graphs
    obtain ⟨source_mem, hub_mem⟩ := wf.connected _ _ first
    obtain ⟨-, target_mem⟩ := wf.connected _ _ last
    refine .relayed ?_ ?_ ?_ (hasEdge_mono built built' more first)
      (hasEdge_mono built built' more last)
    · intro h
      exact hsource ((hasHub_iff_of_contains built built' more source_mem).2 h)
    · intro h
      exact htarget ((hasHub_iff_of_contains built built' more target_mem).2 h)
    · exact (hasHub_iff_of_contains built built' more hub_mem).1 hhub

/-- Every bound that the answer on the smaller graph keeps to is kept to on the larger one. -/
theorem within_mono {p : Policy} (builtIn : p.BuiltIn) {source target : ProviderId} {hops : Nat}
    (h : (p.trustPath g source target).Within hops) :
    (p.trustPath g' source target).Within hops := by
  have wf := wellFormed_of_build built
  have wf' := wellFormed_of_build built'
  cases builtIn with
  | hubAndSpoke =>
    obtain ⟨n, hle, connects⟩ := (HubAndSpoke.within_trustPath_iff wf).1 h
    apply (HubAndSpoke.within_trustPath_iff wf').2
    exact ⟨n, hle, connects_mono built built' more connects⟩
  | peerToPeer p =>
    obtain ⟨n, hle, hdepth, walk⟩ := (PeerToPeer.within_trustPath_iff wf p).1 h
    apply (PeerToPeer.within_trustPath_iff wf' p).2
    have walk' := walk.map (f := id) fun a b => trusts_mono built built' more
    exact ⟨n, hle, hdepth, walk'⟩

end Extends

/-- A built-in policy that finds a route on the graph of a run finds one that is no longer on the
graph of every run that says more. -/
theorem route_of_more_trust (networkId networkId' : String) (calls calls' : List BuilderCall)
    (g g' : TrustGraph) (built : (run networkId calls).build = .ok g)
    (built' : (run networkId' calls').build = .ok g')
    (more : BuilderCall.Extends calls calls') (p : Policy) (builtIn : p.BuiltIn)
    (source target : ProviderId) (reachable : (p.trustPath g source target).reachable = true) :
    (p.trustPath g' source target).reachable = true ∧
      (p.trustPath g' source target).hopCount ≤ (p.trustPath g source target).hopCount := by
  apply PathResult.shorter_of_within ?_ reachable
  intro hops
  exact within_mono built built' more builtIn

/-- Two spokes around a hub, and one behind them. -/
def sparse : List BuilderCall :=
  [.addProvider ⟨"a"⟩ "https://a" .spoke, .addProvider ⟨"b"⟩ "https://b" .spoke,
    .addProvider ⟨"c"⟩ "https://c" .spoke, .addProvider ⟨"h"⟩ "https://h" .hub,
    .addTrust ⟨"a"⟩ ⟨"h"⟩ .explicit, .addTrust ⟨"h"⟩ ⟨"b"⟩ .explicit,
    .addTrust ⟨"b"⟩ ⟨"c"⟩ .explicit]

/-- The same with another hub and a shorter way to the last spoke. -/
def dense : List BuilderCall :=
  [.addTrust ⟨"a"⟩ ⟨"c"⟩ .transitive, .addTrust ⟨"b"⟩ ⟨"c"⟩ .transitive,
    .addProvider ⟨"g"⟩ "https://g" .hub, .addTrust ⟨"a"⟩ ⟨"g"⟩ .explicit,
    .addTrust ⟨"g"⟩ ⟨"b"⟩ .explicit, .addProvider ⟨"h"⟩ "https://h" .hub,
    .addTrust ⟨"h"⟩ ⟨"b"⟩ .explicit, .addTrust ⟨"a"⟩ ⟨"h"⟩ .explicit,
    .addProvider ⟨"c"⟩ "https://c" .peer, .addProvider ⟨"b"⟩ "https://b" .spoke,
    .addProvider ⟨"a"⟩ "https://a" (.other "relying-party")]

def sparseGraph : TrustGraph :=
  (run "net" sparse).freeze

def denseGraph : TrustGraph :=
  (run "net" dense).freeze

theorem extends_dense : BuilderCall.Extends sparse dense where
  adds id := by
    simp only [BuilderCall.Adds, sparse, dense, BuilderCall.provider?, List.filterMap_cons,
      List.filterMap_nil, List.exists_mem_cons_iff, List.not_mem_nil, false_and, exists_false]
    tauto
  addsHub_iff id := by
    simp only [BuilderCall.Adds, BuilderCall.AddsHub, sparse, dense, BuilderCall.provider?,
      List.filterMap_cons, List.filterMap_nil, List.exists_mem_cons_iff, List.not_mem_nil,
      false_and, exists_false, reduceCtorEq, and_false, and_true, false_or, or_false]
    rintro (rfl | rfl | rfl | rfl) <;> simp
  declares source target := by
    simp only [BuilderCall.Declares, sparse, dense, List.mem_cons, List.not_mem_nil,
      BuilderCall.addTrust.injEq, reduceCtorEq, or_false, false_or]
    grind

/-- The route over a hub goes over another one, and the chain of three edges becomes one edge. -/
theorem route_of_dense :
    (run "net" sparse).build = .ok sparseGraph ∧ (run "net" dense).build = .ok denseGraph ∧
      BuilderCall.Extends sparse dense ∧
      (HubAndSpoke.policy.trustPath sparseGraph ⟨"a"⟩ ⟨"b"⟩).path = [⟨"a"⟩, ⟨"h"⟩, ⟨"b"⟩] ∧
      (HubAndSpoke.policy.trustPath denseGraph ⟨"a"⟩ ⟨"b"⟩).reachable = true ∧
      (HubAndSpoke.policy.trustPath denseGraph ⟨"a"⟩ ⟨"b"⟩).path = [⟨"a"⟩, ⟨"g"⟩, ⟨"b"⟩] ∧
      (PeerToPeer.standard.policy.trustPath sparseGraph ⟨"a"⟩ ⟨"c"⟩).hopCount = 3 ∧
      (PeerToPeer.standard.policy.trustPath denseGraph ⟨"a"⟩ ⟨"c"⟩).reachable = true ∧
      (PeerToPeer.standard.policy.trustPath denseGraph ⟨"a"⟩ ⟨"c"⟩).hopCount = 1 := by
  have built : (run "net" sparse).build = .ok sparseGraph := rfl
  have built' : (run "net" dense).build = .ok denseGraph := rfl
  have relayed := route_of_more_trust "net" "net" sparse dense _ _ built built' extends_dense
    HubAndSpoke.policy .hubAndSpoke ⟨"a"⟩ ⟨"b"⟩ (by decide +kernel)
  have chained := route_of_more_trust "net" "net" sparse dense _ _ built built' extends_dense
    PeerToPeer.standard.policy (.peerToPeer .standard) ⟨"a"⟩ ⟨"c"⟩ (by decide +kernel)
  exact ⟨built, built', extends_dense, by decide +kernel, relayed.1, by decide +kernel,
    by decide +kernel, chained.1, by decide +kernel⟩

end GraphBuilder

end Federation
