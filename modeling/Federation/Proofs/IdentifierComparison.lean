import Federation.Network.Snapshot
import Federation.Policy.Registry
import Federation.Proofs.AdjacencyLayout
import Federation.Proofs.BridgingHub

/-!
# Comparing identifiers

Two texts can be compared by the octets of their UTF-8 encoding or by their code points. Both
comparisons have the same outcome, which is that of the order in which tables keep their keys. What
is listed by identifier or by name is therefore ascending in either sense, and the hub that a route
takes is the least in either sense.
-/

namespace Federation

universe u

namespace Text

/-- The octets of a text in UTF-8. -/
def octets (s : String) : List UInt8 :=
  s.toUTF8.data.toList

/-- The code points of a text. -/
def codePoints (s : String) : List Nat :=
  s.toList.map Char.toNat

/-- How two texts compare by their octets, the first that differ counting. -/
def compareOctets (s t : String) : Ordering :=
  List.compareLex compare (octets s) (octets t)

/-- How two texts compare by their code points, the first that differ counting. -/
def compareCodePoints (s t : String) : Ordering :=
  List.compareLex compare (codePoints s) (codePoints t)

theorem octets_lt_of_lt {s t : String} (h : s < t) : octets s < octets t :=
  ProviderId.octets_lt_of_lt (a := ⟨s⟩) (b := ⟨t⟩) h

theorem codePoints_lt_of_lt {s t : String} (h : s < t) : codePoints s < codePoints t :=
  List.map_lt (fun _ _ hlt => UInt32.lt_iff_toNat_lt.1 (Char.lt_def.1 hlt)) h

section Lexicographic

variable {α : Type u} [Ord α] [LT α] [LE α] [Std.LawfulOrderOrd α] [Std.LawfulOrderLT α]
  [Std.LawfulEqOrd α]

theorem compareLex_of_lt {l m : List α} (h : l < m) : List.compareLex compare l m = .lt := by
  rw [← List.lex_lt] at h
  induction h with
  | nil => rfl
  | cons _ ih => rwa [List.compareLex_cons_cons, Std.compare_self, Ordering.eq_then]
  | rel hlt => rw [List.compareLex_cons_cons, Std.compare_eq_lt.2 hlt, Ordering.lt_then]

/-- To compare what grows with a text is to compare the text. -/
theorem compareLex_eq_compare [Std.OrientedOrd α] {f : String → List α}
    (monotone : ∀ {s t : String}, s < t → f s < f t) (s t : String) :
    List.compareLex compare (f s) (f t) = compare s t := by
  rcases Std.lt_trichotomy s t with hlt | rfl | hlt
  · exact (compareLex_of_lt (monotone hlt)).trans (compareOfLessAndEq_eq_lt.2 hlt).symm
  · exact Std.ReflCmp.compare_self.trans Std.compare_self.symm
  · have hgt : compare s t = .gt := Std.OrientedCmp.gt_iff_lt.2 (compareOfLessAndEq_eq_lt.2 hlt)
    exact (Std.OrientedCmp.gt_iff_lt.2 (compareLex_of_lt (monotone hlt))).trans hgt.symm

end Lexicographic

theorem compareOctets_eq (s t : String) : compareOctets s t = compare s t :=
  compareLex_eq_compare octets_lt_of_lt s t

theorem compareCodePoints_eq (s t : String) : compareCodePoints s t = compare s t :=
  compareLex_eq_compare codePoints_lt_of_lt s t

/-- Each text comes before all that follow it, by octets and by code points. -/
def Ascending (texts : List String) : Prop :=
  texts.Pairwise fun s t => compareOctets s t = .lt ∧ compareCodePoints s t = .lt

/-- A text is the other or comes before it, by octets and by code points. -/
def NotAfter (s t : String) : Prop :=
  (compareOctets s t).isLE = true ∧ (compareCodePoints s t).isLE = true

theorem ascending_of_pairwise {texts : List String} (h : texts.Pairwise (· < ·)) :
    Ascending texts := by
  refine h.imp fun {s t} hlt => ?_
  rw [compareOctets_eq, compareCodePoints_eq, and_self]
  exact compareOfLessAndEq_eq_lt.2 hlt

theorem notAfter_of_le {s t : String} (h : s ≤ t) : NotAfter s t := by
  rw [NotAfter, compareOctets_eq, compareCodePoints_eq, and_self]
  exact (isLE_compareOfLessAndEq Std.le_antisymm Std.not_le fun _ _ => Std.le_total).2 h

end Text

/-- Two identifiers compare by their octets as they do by their code points and in tables. -/
structure ProviderId.ComparedAlike (a b : ProviderId) : Prop where
  outcome_eq : Text.compareOctets a.text b.text = Text.compareCodePoints a.text b.text
  /-- Only identifiers with the same text are equal. -/
  eq_iff : Text.compareOctets a.text b.text = .eq ↔ a = b
  lt_iff : Text.compareOctets a.text b.text = .lt ↔ a < b

theorem ProviderId.comparedAlike (a b : ProviderId) : a.ComparedAlike b where
  outcome_eq := (Text.compareOctets_eq a.text b.text).trans
    (Text.compareCodePoints_eq a.text b.text).symm
  eq_iff := by
    rw [Text.compareOctets_eq, Std.compare_eq_iff_eq]
    exact ⟨fun h => by cases a; cases b; exact congrArg mk h, congrArg text⟩
  lt_iff := by
    rw [Text.compareOctets_eq]
    exact compareOfLessAndEq_eq_lt

theorem HubAndSpoke.exists_bridgingHub?_of_path {g : TrustGraph} (wf : g.WellFormed)
    {source target hub : ProviderId}
    (h : (policy.trustPath g source target).path = [source, hub, target]) :
    ∃ node, bridgingHub? g source target = some node ∧ node.id = hub := by
  by_cases hne : source = target
  · subst hne
    rw [Policy.trustPath_self] at h
    cases h
  · rcases Policy.trustPath_cases wf hne with ⟨s, t, rfl, rfl, -, -, hroute⟩ | ⟨-, hroute⟩
    · rw [hroute policy] at h
      have hpath : (route g s t).path = [s.id, hub, t.id] := h
      rcases route_cases g s t with ⟨-, hanswer⟩ | ⟨node, -, -, -, hbridge, hanswer⟩ |
        ⟨-, -, hanswer⟩
      · rw [hanswer] at hpath
        cases hpath
      · rw [hanswer] at hpath
        exact ⟨node, hbridge, by simpa [PathResult.along] using hpath⟩
      · rw [hanswer] at hpath
        cases hpath
    · rw [hroute policy] at h
      cases h

/-- The lists of a graph are ascending, and a route over a hub takes the least hub between its
ends. -/
structure TrustGraph.InOrder (g : TrustGraph) : Prop where
  ids : Text.Ascending (g.ids.map (·.text))
  hubs : Text.Ascending (g.hubs.map (·.id.text))
  positions : Text.Ascending ((Adjacency.ofGraph g).ids.toList.map (·.text))
  least_hub : ∀ source target hub,
    (HubAndSpoke.policy.trustPath g source target).path = [source, hub, target] →
    ∃ node, node.id = hub ∧ HubAndSpoke.Bridges g source target node ∧
      ∀ other, HubAndSpoke.Bridges g source target other → Text.NotAfter hub.text other.id.text

theorem TrustGraph.WellFormed.inOrder {g : TrustGraph} (wf : g.WellFormed) : g.InOrder := by
  have ids : Text.Ascending (g.ids.map (·.text)) :=
    Text.ascending_of_pairwise (List.pairwise_map.2 g.ids_ascending)
  refine ⟨ids, Text.ascending_of_pairwise (List.pairwise_map.2 wf.hubs_ascending), ?_, ?_⟩
  · rwa [Adjacency.ids_ofGraph]
  · intro source target hub h
    obtain ⟨node, hbridge, rfl⟩ := HubAndSpoke.exists_bridgingHub?_of_path wf h
    refine ⟨node, rfl, HubAndSpoke.bridges_of_bridgingHub? hbridge, fun other bridges => ?_⟩
    exact Text.notAfter_of_le (HubAndSpoke.bridgingHub?_le wf hbridge bridges)

/-- Octets and code points put identifiers into the same order, and everything that is listed or
chosen by identifier or by name keeps to it. -/
theorem comparisons_agree :
    (∀ a b : ProviderId, a.ComparedAlike b) ∧
    (∀ (b : GraphBuilder) (g : TrustGraph), b.build = .ok g → g.InOrder) ∧
    (∀ set : SnapshotSet, Text.Ascending set.networkIds) ∧
    ∀ registry : PolicyRegistry, Text.Ascending registry.topologies := by
  refine ⟨ProviderId.comparedAlike, ?_, ?_, ?_⟩
  · intro b g built
    exact (GraphBuilder.wellFormed_of_build built).inOrder
  · intro set
    exact Text.ascending_of_pairwise set.graphs.keys_ascending
  · intro registry
    exact Text.ascending_of_pairwise registry.policies.keys_ascending

/-- Two providers with two hubs between them. The hub beyond the basic plane has the greater code
point, although it would be written with the lesser units of sixteen bits. -/
def highHubs : GraphBuilder where
  networkId := "high"
  nodes := [⟨⟨"a"⟩, "https://a", .spoke, {}⟩, ⟨⟨"𝄞"⟩, "https://clef", .hub, {}⟩,
    ⟨⟨"｡"⟩, "https://stop", .hub, {}⟩, ⟨⟨"ß"⟩, "https://eszett", .peer, {}⟩]
  edges := [⟨⟨"a"⟩, ⟨"𝄞"⟩, .explicit⟩, ⟨⟨"𝄞"⟩, ⟨"ß"⟩, .explicit⟩, ⟨⟨"a"⟩, ⟨"｡"⟩, .explicit⟩,
    ⟨⟨"｡"⟩, ⟨"ß"⟩, .transitive⟩]

/-- The route takes the hub with the lesser code point. -/
theorem comparisons_agree_highHubs :
    highHubs.build = .ok highHubs.freeze ∧ highHubs.freeze.InOrder ∧
      (HubAndSpoke.policy.trustPath highHubs.freeze ⟨"a"⟩ ⟨"ß"⟩).path =
        [⟨"a"⟩, ⟨"｡"⟩, ⟨"ß"⟩] ∧
      Text.compareOctets "｡" "𝄞" = .lt := by
  have built : highHubs.build = .ok highHubs.freeze := rfl
  exact ⟨built, comparisons_agree.2.1 highHubs highHubs.freeze built, by decide +kernel,
    by decide +kernel⟩

end Federation
