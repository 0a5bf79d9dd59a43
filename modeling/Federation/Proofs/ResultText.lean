import Federation.PathResult.Json
import Federation.Proofs.CompactText
import Federation.Proofs.QueryAnswers

/-!
# Path results in writing

The text of a result says all that there is to the result: its endpoints, its route and whether
there is one. No identifier can pass for anything else in it, as quotes and backslashes are escaped.
The number of hops follows from the rest.
-/

namespace Federation.PathResult

open Federation.Json

/-! ### Results that there are -/

/-- The results that are made of their parts, and the answers of the built-in policies about built
graphs, whatever nodes or identifiers they are asked about. -/
inductive Obtained : PathResult → Prop where
  | unreachable (source target : ProviderId) : Obtained (.unreachable source target)
  | trivial (id : ProviderId) : Obtained (.trivial id)
  | found {path : List ProviderId} {r : PathResult} (h : found? path = some r) : Obtained r
  | routed {p : Policy} (builtIn : p.BuiltIn) {b : GraphBuilder} {g : TrustGraph}
      (built : b.build = .ok g) (source target : ProviderNode) :
      Obtained (p.route g source target)
  | queried {p : Policy} (builtIn : p.BuiltIn) {g : Option TrustGraph}
      (built : ∀ h, g = some h → ∃ b : GraphBuilder, b.build = .ok h)
      (source target : Option ProviderId) : Obtained (p.query g source target)

/-- The route is there exactly when the target can be reached. -/
def Routed (r : PathResult) : Prop :=
  r.reachable = true ↔ r.path ≠ []

theorem routed_unreachable (source target : ProviderId) : Routed (.unreachable source target) :=
  iff_of_false Bool.false_ne_true fun h => h rfl

theorem routed_along (source target : ProviderId) {path : List ProviderId} (h : path ≠ []) :
    Routed (.along source target path) :=
  ⟨fun _ => h, fun _ => rfl⟩

/-- The nodes need not be those of the graph. -/
theorem routed_hubAndSpoke (g : TrustGraph) (source target : ProviderNode) :
    Routed (HubAndSpoke.route g source target) := by
  rcases HubAndSpoke.route_cases g source target with
    ⟨-, hroute⟩ | ⟨hub, -, -, -, -, hroute⟩ | ⟨-, -, hroute⟩
  · rw [hroute]
    exact routed_along _ _ (List.cons_ne_nil _ _)
  · rw [hroute]
    exact routed_along _ _ (List.cons_ne_nil _ _)
  · rw [hroute]
    exact routed_unreachable _ _

theorem routed_peerToPeer {g : TrustGraph} (wf : g.WellFormed) (p : PeerToPeer)
    (source target : ProviderNode) : Routed (p.route g source target) := by
  unfold PeerToPeer.route
  dsimp only
  split
  · rename_i i j hsource htarget
    have hi := Adjacency.indexOf?_ofGraph.1 hsource
    have hj := Adjacency.indexOf?_ofGraph.1 htarget
    have answer := Adjacency.answer_shortestPath? (Adjacency.closed_ofGraph wf) p.maxDepth
      (Adjacency.lt_size_of_id? hi) j
    split
    · rename_i positions found
      rw [found] at answer
      obtain ⟨route, inRange, -⟩ := answer
      exact routed_along _ _ (Adjacency.route_idsAt wf hi hj inRange route).ne_nil
    · exact routed_unreachable _ _
  · exact routed_unreachable _ _

theorem Obtained.routed_path {r : PathResult} (h : r.Obtained) : r.Routed := by
  cases h with
  | unreachable source target => exact routed_unreachable source target
  | trivial id => exact routed_along id id (List.cons_ne_nil id [])
  | @found path r h =>
    cases path with
    | nil => cases h
    | cons id rest =>
      obtain rfl := Option.some.inj h
      exact routed_along _ _ (List.cons_ne_nil id rest)
  | routed builtIn built source target =>
    cases builtIn with
    | hubAndSpoke => exact routed_hubAndSpoke _ source target
    | peerToPeer p =>
      exact routed_peerToPeer (GraphBuilder.wellFormed_of_build built) p source target
  | queried builtIn built source target =>
    exact ((Policy.query_answers _ built source target).1 _ builtIn).reachable_iff_path

/-! ### What the text says -/

theorem writable_toJson (r : PathResult) : Writable r.toJson := by
  apply Writable.record
  simp only [List.forall_mem_cons]
  refine ⟨.str _, .str _, .array fun j hj => ?_, .bool _, .number (numberText_toString _),
    List.forall_mem_nil _⟩
  obtain ⟨id, -, rfl⟩ := List.mem_map.1 hj
  exact .str id.text

theorem ProviderId.str_text_injective :
    Function.Injective fun id : ProviderId => Json.str id.text := by
  intro a b h
  cases a
  cases b
  obtain rfl := Option.some.inj (Json.text.inj h)
  rfl

/-- The parts of a result can be told from its tree. -/
theorem toJson_inj {r r' : PathResult} : r.toJson = r'.toJson ↔
    r.source = r'.source ∧ r.target = r'.target ∧ r.path = r'.path ∧
      r.reachable = r'.reachable := by
  constructor
  · intro h
    simp only [toJson, record, List.map_cons, List.map_nil, object.injEq, List.cons.injEq,
      Prod.mk.injEq, array.injEq, bool.injEq, true_and, and_true] at h
    obtain ⟨source, target, path, reachable, -⟩ := h
    exact ⟨ProviderId.str_text_injective source, ProviderId.str_text_injective target,
      ProviderId.str_text_injective.list_map path, reachable⟩
  · rintro ⟨source, target, path, reachable⟩
    obtain rfl : r = r' := by
      cases r
      cases r'
      simp_all
    rfl

theorem Routed.hopCount_eq {r : PathResult} (h : r.Routed) :
    (r.hopCount = -1 ↔ r.reachable = false ∧ r.path = []) ∧
      (¬ (r.reachable = false ∧ r.path = []) → r.hopCount = r.path.length - 1) := by
  cases hreachable : r.reachable with
  | false =>
    have hpath : r.path = [] := by
      by_contra hne
      exact Bool.false_ne_true (hreachable.symm.trans (h.2 hne))
    have hcount : r.hopCount = -1 := by simp [hopCount, hops?, hreachable]
    exact ⟨iff_of_true hcount ⟨rfl, hpath⟩, fun hnot => absurd ⟨rfl, hpath⟩ hnot⟩
  | true =>
    have hpos : 0 < r.path.length := List.length_pos_iff.2 (h.1 hreachable)
    have hcount : r.hopCount = r.path.length - 1 := by
      simp only [hopCount, hops?, hreachable, if_true]
      omega
    refine ⟨iff_of_false (by omega) fun hnot => Bool.noConfusion hnot.1, fun _ => hcount⟩

/-- Results with equal texts are equal. A text says, in this order, from where to where and by which
route, whether there is one and how many hops it has: one less than it has providers, and `-1` when
there is none. -/
theorem compact_faithful (r r' : PathResult) :
    (r.toJson.compact = r'.toJson.compact ↔ r.source = r'.source ∧ r.target = r'.target ∧
      r.path = r'.path ∧ r.reachable = r'.reachable) ∧
    (r.Obtained → ∃ hops : Int,
      Denotes r.toJson.compact (.record [("source", .str r.source.text),
        ("target", .str r.target.text), ("path", .array (r.path.map fun id => .str id.text)),
        ("reachable", .bool r.reachable), ("hop_count", .int hops)]) ∧
      (hops = -1 ↔ r.reachable = false ∧ r.path = []) ∧
      (¬ (r.reachable = false ∧ r.path = []) → hops = r.path.length - 1)) := by
  constructor
  · exact (compact_inj r.writable_toJson r'.writable_toJson).trans toJson_inj
  · intro obtained
    exact ⟨r.hopCount, r.writable_toJson.denotes_compact, obtained.routed_path.hopCount_eq⟩

/-- A provider whose identifier looks like two items of a list. -/
def lookalike : ProviderId :=
  ⟨"a\x22,\x22é\\"⟩

/-- The providers that it looks like. -/
def pair : List ProviderId :=
  [⟨"a"⟩, ⟨"é\\"⟩]

/-- The route of one provider has another text than the route of two. -/
theorem compact_faithful_lookalike :
    (trivial lookalike).Obtained ∧ found? pair = some (along ⟨"a"⟩ ⟨"é\\"⟩ pair) ∧
      (trivial lookalike).toJson.compact ≠ (along ⟨"a"⟩ ⟨"é\\"⟩ pair).toJson.compact ∧
      (∃ hops : Int, Denotes (trivial lookalike).toJson.compact
        (.record [("source", .str lookalike.text), ("target", .str lookalike.text),
          ("path", .array [.str lookalike.text]), ("reachable", .bool true),
          ("hop_count", .int hops)]) ∧ hops = 0) ∧
      ∃ hops : Int, Denotes (unreachable lookalike ⟨""⟩).toJson.compact
        (.record [("source", .str lookalike.text), ("target", .str ""), ("path", .array []),
          ("reachable", .bool false), ("hop_count", .int hops)]) ∧ hops = -1 := by
  obtain ⟨inj, counted⟩ := compact_faithful (trivial lookalike) (along ⟨"a"⟩ ⟨"é\\"⟩ pair)
  obtain ⟨hops, denotes, -, count⟩ := counted (.trivial lookalike)
  obtain ⟨none, denotes_none, unreached, -⟩ :=
    (compact_faithful (unreachable lookalike ⟨""⟩) (trivial lookalike)).2 (.unreachable _ _)
  refine ⟨.trivial lookalike, rfl, fun heq => ?_, ⟨hops, denotes, ?_⟩,
    ⟨none, denotes_none, unreached.2 ⟨rfl, rfl⟩⟩⟩
  · exact absurd (inj.1 heq).2.2.1 (by decide)
  · exact count fun h => Bool.noConfusion h.1

end Federation.PathResult
