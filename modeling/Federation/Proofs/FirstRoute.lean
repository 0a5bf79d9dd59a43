import Federation.Proofs.DiscoveryOrder
import Federation.Proofs.PeerToPeerRoute

/-!
# The first of the shortest routes

Peer-to-peer routing has to choose where several shortest paths lead from one provider to another.
It takes the path that comes first when paths are compared by the declarations that they follow: the
order in which each provider declared its trust decides, from the source on. No bound changes that
choice.
-/

namespace Federation

namespace TrustGraph

/-- A path along declared trust that is as short as any between its ends. -/
structure ShortestPath (g : TrustGraph) (source target : ProviderId) (path : List ProviderId) :
    Prop where
  trail : Trail g.Trusts source target path
  length_le : ∀ other, Trail g.Trusts source target other → path.length ≤ other.length

/-- The shortest path that comes before all others by the places that its providers have among those
that the ones before them trust, in the order of declaration. -/
structure FirstPath (g : TrustGraph) (source target : ProviderId) (path : List ProviderId) :
    Prop where
  shortest : g.ShortestPath source target path
  first : ∀ other, g.ShortestPath source target other →
    other = path ∨ choices g.outgoing path < choices g.outgoing other

variable {g : TrustGraph} {source target : ProviderId} {path path' : List ProviderId}

theorem ShortestPath.length_eq (h : g.ShortestPath source target path)
    (h' : g.ShortestPath source target path') : path.length = path'.length :=
  Nat.le_antisymm (h.length_le _ h'.trail) (h'.length_le _ h.trail)

theorem FirstPath.unique (h : g.FirstPath source target path)
    (h' : g.FirstPath source target path') : path = path' := by
  rcases h'.first path h.shortest with heq | hlt
  · exact heq
  · rcases h.first path' h'.shortest with heq | hlt'
    · exact heq.symm
    · exact absurd hlt' (List.lt_asymm hlt)

end TrustGraph

namespace Adjacency

/-- The position of an identifier that has one. -/
def positionOf (adj : Adjacency) (id : ProviderId) : Nat :=
  (adj.indexOf? id).getD 0

section OfGraph

variable {g : TrustGraph}

theorem positionOf_eq {i : Nat} {id : ProviderId} (hi : (ofGraph g).id? i = some id) :
    (ofGraph g).positionOf id = i := by
  rw [positionOf, indexOf?_ofGraph.2 hi]
  rfl

theorem id?_positionOf {id : ProviderId} (h : g.contains id = true) :
    (ofGraph g).id? ((ofGraph g).positionOf id) = some id := by
  obtain ⟨i, hi⟩ := exists_id?_iff.2 h
  rwa [positionOf_eq hi]

theorem idAt_positionOf {id : ProviderId} (h : g.contains id = true) :
    (ofGraph g).idAt ((ofGraph g).positionOf id) = id :=
  idAt_eq (id?_positionOf h)

theorem positionOf_idAt {i : Nat} (h : i < (ofGraph g).size) :
    (ofGraph g).positionOf ((ofGraph g).idAt i) = i :=
  positionOf_eq (id?_eq_idAt h)

theorem map_idAt_positionOf {path : List ProviderId} (h : ∀ id ∈ path, g.contains id = true) :
    (path.map (ofGraph g).positionOf).map (ofGraph g).idAt = path := by
  rw [List.map_map]
  exact (List.map_congr_left fun a ha => idAt_positionOf (h a ha)).trans (List.map_id path)

theorem map_positionOf_idAt {path : List Nat} (h : ∀ i ∈ path, i < (ofGraph g).size) :
    (path.map (ofGraph g).idAt).map (ofGraph g).positionOf = path := by
  rw [List.map_map]
  exact (List.map_congr_left fun i hi => positionOf_idAt (h i hi)).trans (List.map_id path)

variable (wf : g.WellFormed)
include wf

theorem succ_of_trusts (a b : ProviderId) (h : g.Trusts a b) :
    (ofGraph g).Succ ((ofGraph g).positionOf a) ((ofGraph g).positionOf b) := by
  have ends := wf.contains_of_trusts h
  exact (mem_successors_iff wf (id?_positionOf ends.1) (id?_positionOf ends.2)).2
    (wf.hasEdge_iff.2 h)

/-- Successors are the positions of those that are trusted, one by one. -/
theorem successors_positionOf {a : ProviderId} (h : g.contains a = true) :
    (ofGraph g).successors ((ofGraph g).positionOf a) =
      (g.outgoing a).map (ofGraph g).positionOf := by
  have hids := map_id?_successors wf (id?_positionOf h)
  have inRange := fun j => (closed_ofGraph wf).successor_lt
    (i := (ofGraph g).positionOf a) (j := j)
  rw [← map_positionOf_idAt inRange]
  refine congrArg _ (List.map_injective_iff.2 (Option.some_injective ProviderId) ?_)
  rw [← hids, List.map_map]
  exact List.map_congr_left fun j hj => (id?_eq_idAt (inRange j hj)).symm

/-- Where a provider stands among those that another trusts, its position stands among the
successors. -/
theorem idxOf_positionOf {a b : ProviderId} (h : g.Trusts a b) :
    ((ofGraph g).successors ((ofGraph g).positionOf a)).idxOf ((ofGraph g).positionOf b) =
      (g.outgoing a).idxOf b := by
  have hmem : b ∈ g.outgoing a := wf.mem_outgoing_iff.2 (wf.hasEdge_iff.2 h)
  have hlt := List.idxOf_lt_length_iff.2 hmem
  have hnodup := (closed_ofGraph wf).successors_nodup ((ofGraph g).positionOf a)
  rw [successors_positionOf wf (wf.contains_of_trusts h).1] at hnodup ⊢
  have hidx := hnodup.idxOf_getElem ((g.outgoing a).idxOf b) (by rwa [List.length_map])
  rwa [List.getElem_map, List.getElem_idxOf] at hidx

theorem choices_map_positionOf {path : List ProviderId} (h : path.IsChain g.Trusts) :
    choices (ofGraph g).successors (path.map (ofGraph g).positionOf) = choices g.outgoing path :=
  choices_map (h.imp fun _ _ edge => idxOf_positionOf wf edge)

/-- What is found between two positions is the first of the shortest paths between their
providers. -/
theorem firstPath_of_shortestPath? {source target : ProviderId} {i j maxDepth : Nat}
    (hi : (ofGraph g).id? i = some source) (hj : (ofGraph g).id? j = some target)
    {positions : List Nat} (found : (ofGraph g).shortestPath? maxDepth i j = some positions) :
    g.FirstPath source target ((ofGraph g).idsAt positions) := by
  have closed := closed_ofGraph wf
  have hsize := lt_size_of_id? hi
  have answer := answer_shortestPath? closed maxDepth hsize j
  rw [found] at answer
  obtain ⟨positions_route, inRange, -, shortest⟩ := answer
  have hroute := route_idsAt wf hi hj inRange positions_route
  rw [idsAt_eq_map inRange] at hroute ⊢
  have hshortest : g.ShortestPath source target (positions.map (ofGraph g).idAt) := by
    refine ⟨hroute.trail, fun other trail => ?_⟩
    have hpos : 0 < other.length := List.length_pos_iff.2 trail.ne_nil
    have hle := shortest _ ((hops_iff wf hi hj).2 trail.hops)
    rw [List.length_map]
    omega
  refine ⟨hshortest, fun other hother => ?_⟩
  have hcontains : ∀ id ∈ other, g.contains id = true :=
    hother.trail.forall_mem (exists_id?_iff.1 ⟨i, hi⟩) fun _ _ edge =>
      (wf.contains_of_trusts edge).2
  have trail := hother.trail.map (succ_of_trusts wf)
  rw [positionOf_eq hi, positionOf_eq hj] at trail
  have hlength : (other.map (ofGraph g).positionOf).length = positions.length := by
    simpa using hother.length_eq hshortest
  have hfirst := first_of_shortestPath? closed hsize found trail hlength
  rw [choices_map_positionOf wf hother.trail.chain] at hfirst
  rw [← choices_map_positionOf wf hshortest.trail.chain, map_positionOf_idAt inRange]
  refine hfirst.imp_left fun heq => ?_
  rw [← heq]
  exact (map_idAt_positionOf hcontains).symm

end OfGraph

end Adjacency

namespace PeerToPeer

/-- A route between two distinct providers was found by the search of the adjacency. -/
theorem exists_positions {g : TrustGraph} (wf : g.WellFormed) (p : PeerToPeer)
    {source target : ProviderId} (hne : source ≠ target)
    (reachable : (p.policy.trustPath g source target).reachable = true) :
    ∃ i j positions, (Adjacency.ofGraph g).id? i = some source ∧
      (Adjacency.ofGraph g).id? j = some target ∧
      (Adjacency.ofGraph g).shortestPath? p.maxDepth i j = some positions ∧
      p.policy.trustPath g source target =
        .along source target ((Adjacency.ofGraph g).idsAt positions) := by
  rcases Policy.trustPath_cases wf hne with ⟨s, t, rfl, rfl, hs, ht, hroute⟩ | ⟨-, hmissing⟩
  · obtain ⟨i, hi⟩ := Adjacency.exists_id?_iff.2 (TrustGraph.contains_iff_exists.2 ⟨s, hs⟩)
    obtain ⟨j, hj⟩ := Adjacency.exists_id?_iff.2 (TrustGraph.contains_iff_exists.2 ⟨t, ht⟩)
    have hanswer := (hroute p.policy).trans (p.route_eq hi hj)
    cases hfound : (Adjacency.ofGraph g).shortestPath? p.maxDepth i j with
    | some positions =>
      rw [hfound] at hanswer
      exact ⟨i, j, positions, hi, hj, hfound, hanswer⟩
    | none =>
      rw [hfound] at hanswer
      rw [hanswer] at reachable
      cases reachable
  · rw [hmissing] at reachable
    cases reachable

theorem along_firstPath {g : TrustGraph} (wf : g.WellFormed) (p : PeerToPeer)
    {source target : ProviderId} (hne : source ≠ target)
    (reachable : (p.policy.trustPath g source target).reachable = true) :
    ∃ path, g.FirstPath source target path ∧
      p.policy.trustPath g source target = .along source target path := by
  obtain ⟨i, j, positions, hi, hj, found, hanswer⟩ := exists_positions wf p hne reachable
  exact ⟨_, Adjacency.firstPath_of_shortestPath? wf hi hj found, hanswer⟩

/-- Of all shortest paths between two providers of a built graph the first is taken, with every
bound that admits one. -/
theorem trustPath_first (b : GraphBuilder) (g : TrustGraph) (built : b.build = .ok g)
    (maxDepth : Nat) (source target : ProviderId) (hne : source ≠ target)
    (reachable : ((PeerToPeer.mk maxDepth).policy.trustPath g source target).reachable = true) :
    g.FirstPath source target ((PeerToPeer.mk maxDepth).policy.trustPath g source target).path ∧
      ∀ maxDepth',
        ((PeerToPeer.mk maxDepth').policy.trustPath g source target).reachable = true →
          (PeerToPeer.mk maxDepth').policy.trustPath g source target =
            (PeerToPeer.mk maxDepth).policy.trustPath g source target := by
  have wf := GraphBuilder.wellFormed_of_build built
  obtain ⟨path, first, hanswer⟩ := along_firstPath wf ⟨maxDepth⟩ hne reachable
  rw [hanswer]
  refine ⟨first, fun maxDepth' reachable' => ?_⟩
  obtain ⟨path', first', hanswer'⟩ := along_firstPath wf ⟨maxDepth'⟩ hne reachable'
  rw [hanswer', first'.unique first]

/-- Four shortest paths lead from `s` to `t`. The long way round is declared before all of them, and
the providers are added in another order than the trust that leads to them. -/
def tied : GraphBuilder where
  networkId := "tied"
  nodes := ["a", "b", "c", "d", "e", "s", "t", "x"].map fun id =>
    ⟨⟨id⟩, "https://" ++ id, .peer, {}⟩
  edges := [("s", "x"), ("x", "e"), ("e", "b"), ("s", "b"), ("s", "a"), ("s", "b"), ("b", "e"),
    ("b", "d"), ("b", "c"), ("a", "c"), ("c", "t"), ("a", "d"), ("d", "t")].map fun ends =>
    ⟨⟨ends.1⟩, ⟨ends.2⟩, .explicit⟩

/-- The answer for the two ends of the ties, within a bound. -/
def tiedAnswer (maxDepth : Nat) : PathResult :=
  (PeerToPeer.mk maxDepth).policy.trustPath tied.freeze ⟨"s"⟩ ⟨"t"⟩

/-- Every provider is left by the earliest declaration that a shortest path can follow, and a bound
that is higher than needed changes nothing. -/
theorem trustPath_first_tied :
    tied.build = .ok tied.freeze ∧ (tiedAnswer 3).reachable = true ∧
      (tiedAnswer 3).path = [⟨"s"⟩, ⟨"b"⟩, ⟨"d"⟩, ⟨"t"⟩] ∧
      tied.freeze.FirstPath ⟨"s"⟩ ⟨"t"⟩ [⟨"s"⟩, ⟨"b"⟩, ⟨"d"⟩, ⟨"t"⟩] ∧
      tiedAnswer 50 = tiedAnswer 3 := by
  have built : tied.build = .ok tied.freeze := rfl
  have hne : (⟨"s"⟩ : ProviderId) ≠ ⟨"t"⟩ := by decide
  have reachable : (tiedAnswer 3).reachable = true := by decide +kernel
  have hpath : (tiedAnswer 3).path = [⟨"s"⟩, ⟨"b"⟩, ⟨"d"⟩, ⟨"t"⟩] := by decide +kernel
  obtain ⟨first, same⟩ := trustPath_first tied _ built 3 _ _ hne reachable
  exact ⟨built, reachable, hpath, hpath ▸ first, same 50 (by decide +kernel)⟩

end PeerToPeer

end Federation
