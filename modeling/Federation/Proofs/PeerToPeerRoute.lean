import Federation.Proofs.BreadthFirst
import Federation.Proofs.PolicyQuery
import Mathlib.Order.Bounds.Basic

/-!
# Peer-to-peer routes

The search of peer-to-peer routing runs over positions. Read back as identifiers, its answer is a
shortest walk along the trust of the graph, and it has an answer exactly when some walk keeps to the
depth bound.
-/

namespace Federation

/-- The edges of a graph as a relation between providers. -/
def TrustGraph.Trusts (g : TrustGraph) (source target : ProviderId) : Prop :=
  ∃ e ∈ g.edges, e.source = source ∧ e.target = target

theorem TrustGraph.WellFormed.contains_of_trusts {g : TrustGraph} (wf : g.WellFormed)
    {source target : ProviderId} (h : g.Trusts source target) :
    g.contains source = true ∧ g.contains target = true :=
  wf.connected _ _ (wf.hasEdge_iff.2 h)

namespace Adjacency

/-- The identifier at a position that exists. -/
def idAt (adj : Adjacency) (i : Nat) : ProviderId :=
  (adj.id? i).getD default

theorem idAt_eq {adj : Adjacency} {i : Nat} {id : ProviderId} (h : adj.id? i = some id) :
    adj.idAt i = id := by
  rw [idAt, h]
  rfl

section OfGraph

variable {g : TrustGraph}

theorem id?_eq_idAt {i : Nat} (h : i < (ofGraph g).size) :
    (ofGraph g).id? i = some ((ofGraph g).idAt i) := by
  rw [idAt, id?, Array.getElem?_eq_getElem h]
  rfl

theorem idsAt_eq_map {path : List Nat} (h : ∀ i ∈ path, i < (ofGraph g).size) :
    (ofGraph g).idsAt path = path.map (ofGraph g).idAt := by
  rw [idsAt, ← List.filterMap_eq_map]
  exact List.filterMap_congr fun i hi => id?_eq_idAt (h i hi)

variable (wf : g.WellFormed)
include wf

theorem trusts_of_succ (i j : Nat) (h : (ofGraph g).Succ i j) :
    g.Trusts ((ofGraph g).idAt i) ((ofGraph g).idAt j) := by
  have hi : i < (ofGraph g).size := by
    by_contra hge
    rw [Succ, successors, if_pos (Nat.le_of_not_lt hge)] at h
    cases h
  have hj := (closed_ofGraph wf).successor_lt h
  exact wf.hasEdge_iff.1 ((mem_successors_iff wf (id?_eq_idAt hi) (id?_eq_idAt hj)).1 h)

theorem exists_hops {source target : ProviderId} {n : Nat} (walk : Hops g.Trusts source n target)
    {i : Nat} (hi : (ofGraph g).id? i = some source) :
    ∃ j, (ofGraph g).id? j = some target ∧ Hops (ofGraph g).Succ i n j := by
  induction walk with
  | stay => exact ⟨i, hi, .stay⟩
  | step _ edge ih =>
    obtain ⟨k, hk, hwalk⟩ := ih
    obtain ⟨j, hj⟩ := exists_id?_iff.2 (wf.contains_of_trusts edge).2
    exact ⟨j, hj, hwalk.step ((mem_successors_iff wf hk hj).2 (wf.hasEdge_iff.2 edge))⟩

/-- Walks between providers and between their positions are the same. -/
theorem hops_iff {source target : ProviderId} {n i j : Nat}
    (hi : (ofGraph g).id? i = some source) (hj : (ofGraph g).id? j = some target) :
    Hops (ofGraph g).Succ i n j ↔ Hops g.Trusts source n target := by
  constructor
  · intro walk
    have hmap := walk.map (trusts_of_succ wf)
    rwa [idAt_eq hi, idAt_eq hj] at hmap
  · intro walk
    obtain ⟨k, hk, hwalk⟩ := exists_hops wf walk hi
    exact id?_inj hk hj ▸ hwalk

theorem route_idsAt {source target : ProviderId} {i j : Nat} {path : List Nat}
    (hi : (ofGraph g).id? i = some source) (hj : (ofGraph g).id? j = some target)
    (inRange : ∀ k ∈ path, k < (ofGraph g).size) (route : Route (ofGraph g).Succ i j path) :
    Route g.Trusts source target ((ofGraph g).idsAt path) := by
  have distinct : ∀ k ∈ path, ∀ m ∈ path, (ofGraph g).idAt k = (ofGraph g).idAt m → k = m := by
    intro k hk m hm heq
    have hm := id?_eq_idAt (inRange m hm)
    exact id?_inj (id?_eq_idAt (inRange k hk)) (heq ▸ hm)
  have hmap := route.map (trusts_of_succ wf) distinct
  rwa [idAt_eq hi, idAt_eq hj, ← idsAt_eq_map inRange] at hmap

end OfGraph

end Adjacency

namespace PeerToPeer

/-- A route is what the search finds between the positions of two providers. -/
theorem route_eq (p : PeerToPeer) {g : TrustGraph} {source target : ProviderNode} {i j : Nat}
    (hi : (Adjacency.ofGraph g).id? i = some source.id)
    (hj : (Adjacency.ofGraph g).id? j = some target.id) :
    p.route g source target = match (Adjacency.ofGraph g).shortestPath? p.maxDepth i j with
      | some positions =>
        .along source.id target.id ((Adjacency.ofGraph g).idsAt positions)
      | none => .unreachable source.id target.id := by
  have hsource := Adjacency.indexOf?_ofGraph.2 hi
  have htarget := Adjacency.indexOf?_ofGraph.2 hj
  cases found : (Adjacency.ofGraph g).shortestPath? p.maxDepth i j <;>
    simp only [route, hsource, htarget, found]

/-- Peer-to-peer routing answers with a shortest route, or there is no walk within the bound. -/
theorem route_cases {g : TrustGraph} (wf : g.WellFormed) (p : PeerToPeer)
    {source target : ProviderNode} (hsource : g.node? source.id = some source)
    (htarget : g.node? target.id = some target) :
    (p.route g source target = .unreachable source.id target.id ∧
      ∀ n ≤ p.maxDepth, ¬ Hops g.Trusts source.id n target.id) ∨
    ∃ path, p.route g source target = .along source.id target.id path ∧
      Route g.Trusts source.id target.id path ∧ path.length ≤ p.maxDepth + 1 ∧
      ∀ n, Hops g.Trusts source.id n target.id → path.length ≤ n + 1 := by
  have hsource := TrustGraph.contains_iff_exists.2 ⟨source, hsource⟩
  have htarget := TrustGraph.contains_iff_exists.2 ⟨target, htarget⟩
  obtain ⟨i, hi⟩ := Adjacency.exists_id?_iff.2 hsource
  obtain ⟨j, hj⟩ := Adjacency.exists_id?_iff.2 htarget
  have answer := Adjacency.answer_shortestPath? (Adjacency.closed_ofGraph wf) p.maxDepth
    (Adjacency.lt_size_of_id? hi) j
  rw [p.route_eq hi hj]
  cases hfound : (Adjacency.ofGraph g).shortestPath? p.maxDepth i j with
  | none =>
    rw [hfound] at answer
    exact Or.inl ⟨rfl, fun n hn walk => answer n hn ((Adjacency.hops_iff wf hi hj).2 walk)⟩
  | some positions =>
    rw [hfound] at answer
    obtain ⟨positions_route, inRange, within, shortest⟩ := answer
    have hlength : ((Adjacency.ofGraph g).idsAt positions).length = positions.length := by
      rw [Adjacency.idsAt_eq_map inRange, List.length_map]
    refine Or.inr ⟨_, rfl, Adjacency.route_idsAt wf hi hj inRange positions_route,
      hlength ▸ within, fun n walk => ?_⟩
    rw [hlength]
    exact shortest n ((Adjacency.hops_iff wf hi hj).2 walk)

/-- What an answer says of the walks of at most so many edges between two providers. -/
structure Shortest (g : TrustGraph) (maxDepth : Nat) (source target : ProviderId)
    (answer : PathResult) : Prop where
  /-- There is an answer exactly when some walk keeps to the depth bound. -/
  reachable_iff : answer.reachable = true ↔ ∃ n ≤ maxDepth, Hops g.Trusts source n target
  route : answer.reachable = true → Route g.Trusts source target answer.path
  /-- No walk at all has fewer edges than the answer. -/
  hopCount_least : answer.reachable = true →
    ∃ hops : Nat, answer.hopCount = hops ∧ IsLeast {n | Hops g.Trusts source n target} hops

theorem shortest_route {g : TrustGraph} (wf : g.WellFormed) (p : PeerToPeer)
    {source target : ProviderNode} (hsource : g.node? source.id = some source)
    (htarget : g.node? target.id = some target) :
    Shortest g p.maxDepth source.id target.id (p.route g source target) := by
  rcases route_cases wf p hsource htarget with
    ⟨hroute, none_within⟩ | ⟨path, hroute, route, within, shortest⟩
  · rw [hroute]
    have hfalse : (PathResult.unreachable source.id target.id).reachable ≠ true :=
      Bool.false_ne_true
    refine ⟨⟨fun h => False.elim (hfalse h), ?_⟩, fun h => False.elim (hfalse h),
      fun h => False.elim (hfalse h)⟩
    rintro ⟨n, hn, walk⟩
    exact False.elim (none_within n hn walk)
  · rw [hroute]
    have walk := route.hops
    have hle : path.length - 1 ≤ p.maxDepth := Nat.sub_le_of_le_add within
    refine ⟨⟨fun _ => ⟨path.length - 1, hle, walk⟩, fun _ => rfl⟩, fun _ => route, fun _ => ?_⟩
    refine ⟨path.length - 1, rfl, walk, fun n hn => ?_⟩
    exact Nat.sub_le_of_le_add (shortest n hn)

/-- Two distinct texts are connected exactly when a walk within the bound leads from one to the
other. -/
theorem reachable_trustPath_iff {g : TrustGraph} (wf : g.WellFormed) (p : PeerToPeer)
    {source target : ProviderId} (hne : source ≠ target) :
    (p.policy.trustPath g source target).reachable = true ↔
      ∃ n ≤ p.maxDepth, Hops g.Trusts source n target := by
  rcases Policy.trustPath_cases wf hne with
    ⟨s, t, rfl, rfl, hs, ht, hroute⟩ | ⟨missing, hunreachable⟩
  · rw [hroute p.policy]
    exact (shortest_route wf p hs ht).reachable_iff
  · rw [hunreachable p.policy]
    constructor
    · exact fun h => False.elim (Bool.false_ne_true h)
    · -- the first and the last edge of a walk would make both of them providers
      rintro ⟨n, _, walk⟩
      rcases walk.eq_or_ends with heq | ⟨⟨a, first⟩, b, last⟩
      · exact False.elim (hne heq)
      · have hsource := (wf.contains_of_trusts first).1
        have htarget := (wf.contains_of_trusts last).2
        exact False.elim (missing ⟨hsource, htarget⟩)

/-- Between two distinct providers of a built graph, every depth bound gives a shortest route or
shows that no walk is that short. -/
theorem trustPath_shortest (b : GraphBuilder) (g : TrustGraph) (built : b.build = .ok g)
    (maxDepth : Nat) (source target : ProviderId) (hsource : g.contains source = true)
    (htarget : g.contains target = true) (hne : source ≠ target) :
    Shortest g maxDepth source target
      ((PeerToPeer.mk maxDepth).policy.trustPath g source target) := by
  have wf := GraphBuilder.wellFormed_of_build built
  rcases Policy.trustPath_cases wf hne with ⟨s, t, rfl, rfl, hs, ht, hroute⟩ | ⟨missing, _⟩
  · rw [hroute (PeerToPeer.mk maxDepth).policy]
    exact shortest_route wf ⟨maxDepth⟩ hs ht
  · exact False.elim (missing ⟨hsource, htarget⟩)

/-- Three providers that form a ring, one of which trusts itself, and a fourth behind the ring. -/
def ring : GraphBuilder where
  networkId := "ring"
  topology := .peerToPeer
  nodes := ["a", "b", "c", "d"].map fun id => ⟨⟨id⟩, "https://" ++ id, .peer, {}⟩
  edges := [("a", "a"), ("a", "b"), ("b", "c"), ("c", "a"), ("c", "d")].map fun ends =>
    ⟨⟨ends.1⟩, ⟨ends.2⟩, .explicit⟩

/-- The answer for the two ends of the ring and what it leads to, within a bound. -/
def ringAnswer (maxDepth : Nat) : PathResult :=
  (PeerToPeer.mk maxDepth).policy.trustPath ring.freeze ⟨"a"⟩ ⟨"d"⟩

/-- The fourth provider is found at the depth bound, and the bound below it is too low. -/
theorem trustPath_ring :
    ring.build = .ok ring.freeze ∧
      Shortest ring.freeze 3 ⟨"a"⟩ ⟨"d"⟩ (ringAnswer 3) ∧
      (ringAnswer 3).path = [⟨"a"⟩, ⟨"b"⟩, ⟨"c"⟩, ⟨"d"⟩] ∧
      Shortest ring.freeze 2 ⟨"a"⟩ ⟨"d"⟩ (ringAnswer 2) ∧ (ringAnswer 2).reachable = false := by
  have built : ring.build = .ok ring.freeze := rfl
  have hsource : ring.freeze.contains ⟨"a"⟩ = true := by decide +kernel
  have htarget : ring.freeze.contains ⟨"d"⟩ = true := by decide +kernel
  have hne : (⟨"a"⟩ : ProviderId) ≠ ⟨"d"⟩ := by decide
  refine ⟨built, ?_, by decide +kernel, ?_, by decide +kernel⟩
  · exact trustPath_shortest ring _ built 3 _ _ hsource htarget hne
  · exact trustPath_shortest ring _ built 2 _ _ hsource htarget hne

end PeerToPeer

end Federation
