import Federation.Proofs.RouteLength

/-!
# Agreement of the built-in policies

Hub-and-spoke routing looks at edges and hubs, peer-to-peer routing searches for chains. Where the
first one finds a route the second one finds a route of the same length, provided that its bound
admits two hops, and up to one hop it is the same route. So what a chain is refused to, a hub is
refused to as well.
-/

namespace Federation

/-- A route of at most one edge is given by its ends and its length. -/
theorem Route.eq_of_length_le_two {α : Type} {R S : α → α → Prop} {source target : α}
    {path path' : List α} (h : Route R source target path) (h' : Route S source target path')
    (hle : path.length ≤ 2) (hlength : path'.length = path.length) : path' = path := by
  obtain ⟨head, last, -, -⟩ := h
  obtain ⟨head', last', -, -⟩ := h'
  match path, path' with
  | [], [] => rfl
  | [a], [a'] => simp_all
  | [a, b], [a', b'] => simp_all
  | _ :: _ :: _ :: _, _ => simp at hle

/-- Answers over at most one hop to the same query are equal when they are equally long. -/
theorem PathResult.Answers.eq_of_hopCount_le_one {g : Option TrustGraph}
    {source target : Option ProviderId} {r r' : PathResult} (h : Answers g source target r)
    (h' : Answers g source target r') (reachable : r.reachable = true)
    (reachable' : r'.reachable = true) (hcount : r'.hopCount = r.hopCount)
    (hle : r.hopCount ≤ 1) : r' = r := by
  have hlength := h.hopCount_eq reachable
  have hlength' := h'.hopCount_eq reachable'
  obtain ⟨_, -, route⟩ := h.route reachable
  obtain ⟨_, -, route'⟩ := h'.route reachable'
  have hsource : r'.source = r.source := h'.source_eq.trans h.source_eq.symm
  have htarget : r'.target = r.target := h'.target_eq.trans h.target_eq.symm
  rw [hsource, htarget] at route'
  have hpath : r'.path = r.path := route.eq_of_length_le_two route' (by omega) (by omega)
  cases r
  cases r'
  simp_all

namespace HubAndSpoke

variable {g : TrustGraph} (wf : g.WellFormed) {source target : ProviderId} {n : Nat}
include wf

/-- What the rules of hub-and-spoke networks lead over is a walk. -/
theorem Connects.hops (h : Connects g source target n) : Hops g.Trusts source n target := by
  cases h with
  | same => exact .stay
  | direct edge => exact .step .stay (wf.hasEdge_iff.1 edge)
  | relayed _ _ _ first last =>
    exact .step (.step .stay (wf.hasEdge_iff.1 first)) (wf.hasEdge_iff.1 last)

/-- A walk of at most one edge is one that the rules admit, whatever the roles are. -/
theorem connects_of_hops (walk : Hops g.Trusts source n target) (hle : n ≤ 1) :
    Connects g source target n := by
  cases walk with
  | stay => exact .same source
  | step before edge =>
    cases before with
    | stay => exact .direct (wf.hasEdge_iff.2 edge)
    | step => omega

end HubAndSpoke

namespace PeerToPeer

variable {g : TrustGraph} (wf : g.WellFormed) {p : PeerToPeer} {source target : ProviderId}
  {hops : Nat}
include wf

theorem within_of_hubAndSpoke (deep : 2 ≤ p.maxDepth)
    (h : (HubAndSpoke.policy.trustPath g source target).Within hops) :
    (p.policy.trustPath g source target).Within hops := by
  obtain ⟨n, hle, connects⟩ := (HubAndSpoke.within_trustPath_iff wf).1 h
  apply (within_trustPath_iff wf p).2
  have := connects.le_two
  exact ⟨n, hle, by omega, connects.hops wf⟩

/-- Where hub-and-spoke routing has a route, no chain is shorter. -/
theorem within_hubAndSpoke
    (reachable : (HubAndSpoke.policy.trustPath g source target).reachable = true)
    (h : (p.policy.trustPath g source target).Within hops) :
    (HubAndSpoke.policy.trustPath g source target).Within hops := by
  apply (HubAndSpoke.within_trustPath_iff wf).2
  obtain ⟨n, hle, -, walk⟩ := (within_trustPath_iff wf p).1 h
  by_cases short : n ≤ 1
  · exact ⟨n, hle, HubAndSpoke.connects_of_hops wf walk short⟩
  · obtain ⟨m, -, connects, -⟩ := HubAndSpoke.exists_least wf reachable
    have := connects.le_two
    exact ⟨m, by omega, connects⟩

end PeerToPeer

namespace Policy

/-- On every built graph peer-to-peer routing finds what hub-and-spoke routing finds, over as many
hops, and up to one hop by the same route. -/
theorem peerToPeer_agrees (b : GraphBuilder) (g : TrustGraph) (built : b.build = .ok g)
    (maxDepth : Nat) (deep : 2 ≤ maxDepth) (source target : ProviderId) :
    ((HubAndSpoke.policy.trustPath g source target).reachable = true →
      ((PeerToPeer.mk maxDepth).policy.trustPath g source target).reachable = true ∧
      ((PeerToPeer.mk maxDepth).policy.trustPath g source target).hopCount =
        (HubAndSpoke.policy.trustPath g source target).hopCount ∧
      ((HubAndSpoke.policy.trustPath g source target).hopCount ≤ 1 →
        (PeerToPeer.mk maxDepth).policy.trustPath g source target =
          HubAndSpoke.policy.trustPath g source target)) ∧
    (((PeerToPeer.mk maxDepth).policy.trustPath g source target).reachable = false →
      (HubAndSpoke.policy.trustPath g source target).reachable = false) := by
  have wf := GraphBuilder.wellFormed_of_build built
  have found : (HubAndSpoke.policy.trustPath g source target).reachable = true →
      ((PeerToPeer.mk maxDepth).policy.trustPath g source target).reachable = true ∧
      ((PeerToPeer.mk maxDepth).policy.trustPath g source target).hopCount ≤
        (HubAndSpoke.policy.trustPath g source target).hopCount :=
    PathResult.shorter_of_within fun _ => PeerToPeer.within_of_hubAndSpoke wf deep
  constructor
  · intro reachable
    obtain ⟨reachable', hle⟩ := found reachable
    obtain ⟨-, hge⟩ := PathResult.shorter_of_within
      (fun _ => PeerToPeer.within_hubAndSpoke wf reachable) reachable'
    have hcount := Int.le_antisymm hle hge
    refine ⟨reachable', hcount, ?_⟩
    intro short
    have answers := BuiltIn.hubAndSpoke.trustPath_answers wf source target
    have answers' := (BuiltIn.peerToPeer ⟨maxDepth⟩).trustPath_answers wf source target
    exact answers.eq_of_hopCount_le_one answers' reachable reachable' hcount short
  · intro refused
    apply Bool.eq_false_iff.2
    intro reachable
    have reachable' := (found reachable).1
    rw [refused] at reachable'
    cases reachable'

/-- Two ways of two edges between two spokes, of which only the second one leads over a hub, and a
provider that nobody trusts. -/
def crossroads : GraphBuilder where
  networkId := "crossroads"
  nodes := [⟨⟨"a"⟩, "https://a", .spoke, {}⟩, ⟨⟨"b"⟩, "https://b", .spoke, {}⟩,
    ⟨⟨"h"⟩, "https://h", .hub, {}⟩, ⟨⟨"m"⟩, "https://m", .peer, {}⟩,
    ⟨⟨"d"⟩, "https://d", .spoke, {}⟩]
  edges := [("a", "m"), ("m", "b"), ("a", "h"), ("h", "b"), ("b", "a")].map fun ends =>
    ⟨⟨ends.1⟩, ⟨ends.2⟩, .explicit⟩

/-- The answer of one of the built-in policies for the network of two ways. -/
def crossroadsAnswer (p : Policy) (source target : String) : PathResult :=
  p.trustPath crossroads.freeze ⟨source⟩ ⟨target⟩

/-- A bound of two hops is enough. The ways are equally long and differ, the edge is the same, and
where there is no chain there is no hub. -/
theorem peerToPeer_agrees_crossroads :
    crossroads.build = .ok crossroads.freeze ∧
      (crossroadsAnswer HubAndSpoke.policy "a" "b").path = [⟨"a"⟩, ⟨"h"⟩, ⟨"b"⟩] ∧
      (crossroadsAnswer (PeerToPeer.mk 2).policy "a" "b").path = [⟨"a"⟩, ⟨"m"⟩, ⟨"b"⟩] ∧
      (crossroadsAnswer (PeerToPeer.mk 2).policy "a" "b").hopCount =
        (crossroadsAnswer HubAndSpoke.policy "a" "b").hopCount ∧
      (crossroadsAnswer HubAndSpoke.policy "b" "a").hopCount = 1 ∧
      crossroadsAnswer (PeerToPeer.mk 2).policy "b" "a" =
        crossroadsAnswer HubAndSpoke.policy "b" "a" ∧
      (crossroadsAnswer (PeerToPeer.mk 2).policy "a" "d").reachable = false ∧
      (crossroadsAnswer HubAndSpoke.policy "a" "d").reachable = false := by
  have built : crossroads.build = .ok crossroads.freeze := rfl
  have relayed := peerToPeer_agrees _ _ built 2 (Nat.le_refl 2) ⟨"a"⟩ ⟨"b"⟩
  have direct := peerToPeer_agrees _ _ built 2 (Nat.le_refl 2) ⟨"b"⟩ ⟨"a"⟩
  have refused := peerToPeer_agrees _ _ built 2 (Nat.le_refl 2) ⟨"a"⟩ ⟨"d"⟩
  have alone : (crossroadsAnswer (PeerToPeer.mk 2).policy "a" "d").reachable = false := by
    decide +kernel
  exact ⟨built, by decide +kernel, by decide +kernel, (relayed.1 (by decide +kernel)).2.1,
    by decide +kernel, (direct.1 (by decide +kernel)).2.2 (by decide +kernel), alone,
    refused.2 alone⟩

end Policy

end Federation
