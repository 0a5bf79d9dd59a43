import Federation.Proofs.DocumentGraph
import Mathlib.Data.List.Range

/-!
# The first violation of a document

The checks of a document stop at the first violation. Which one that is can be said of the document
alone: its name comes before its providers, these come in the order of their identifiers, and its
relationships come last, by position. A document that has no violation is valid.
-/

namespace Federation

/-- In a list in order, the first value that is found is that of the least item that has one. -/
theorem findSome?_eq_some_iff_of_ordered {α β : Type} {r : α → α → Prop} {f : α → Option β}
    {l : List α} (asymm : ∀ a b, r a b → ¬ r b a) (ordered : l.Pairwise r) {b : β} :
    l.findSome? f = some b ↔ ∃ a ∈ l, f a = some b ∧ ∀ a' ∈ l, r a' a → f a' = none := by
  constructor
  · intro h
    obtain ⟨before, a, after, rfl, ha, hbefore⟩ := List.findSome?_eq_some_iff.1 h
    have hafter := (List.pairwise_cons.1 (List.pairwise_append.1 ordered).2.1).1
    refine ⟨a, by simp, ha, fun a' ha' hlt => ?_⟩
    rcases List.mem_append.1 ha' with ha' | ha'
    · exact hbefore a' ha'
    · rcases List.mem_cons.1 ha' with rfl | ha'
      · exact absurd hlt (asymm _ _ hlt)
      · exact absurd hlt (asymm _ _ (hafter a' ha'))
  · rintro ⟨a, hmem, ha, least⟩
    obtain ⟨before, after, rfl⟩ := List.append_of_mem hmem
    have hbefore := (List.pairwise_append.1 ordered).2.2
    refine List.findSome?_eq_some_iff.2 ⟨before, a, after, rfl, ha, fun a' ha' => ?_⟩
    exact least a' (List.mem_append_left _ ha') (hbefore a' ha' a List.mem_cons_self)

theorem Table.findSome?_entries_eq_some_iff {α β : Type} (t : Table String α)
    {f : String → α → Option β} {b : β} :
    (t.entries.findSome? fun e => f e.1 e.2) = some b ↔
      ∃ k x, t.get? k = some x ∧ f k x = some b ∧
        ∀ k' x', t.get? k' = some x' → k' < k → f k' x' = none := by
  rw [findSome?_eq_some_iff_of_ordered (fun _ _ h h' => Std.lt_irrefl (Std.lt_trans h h'))
    t.ascending]
  simp only [Prod.exists, Prod.forall, Table.get?_eq_some_iff]

/-- What is found first in a list by position is found at the least position that has it. -/
theorem findSome?_zipIdx_eq_some_iff {α β : Type} (l : List α) {f : α → Nat → Option β} {b : β} :
    (l.zipIdx.findSome? fun e => f e.1 e.2) = some b ↔
      ∃ i x, l[i]? = some x ∧ f x i = some b ∧ ∀ j < i, ∀ y, l[j]? = some y → f y j = none := by
  have positions : l.zipIdx.Pairwise fun a b => a.2 < b.2 := by
    rw [← List.pairwise_map (f := Prod.snd), List.zipIdx_map_snd]
    exact List.pairwise_lt_range'
  rw [findSome?_eq_some_iff_of_ordered (fun _ _ => Nat.lt_asymm) positions]
  simp only [Prod.exists, Prod.forall, List.mk_mem_zipIdx_iff_getElem?]
  rw [exists_comm]
  refine exists_congr fun i => exists_congr fun x => and_congr_right fun _ =>
    and_congr_right fun _ => ?_
  exact ⟨fun h j hj y hy => h y j hy hj, fun h y j hy hj => h j hj y hy⟩

namespace NetworkDocument

/-- A provider has an identifier, an issuer and a role. -/
def Described (id : String) (entry : ProviderEntry) : Prop :=
  Text.trim id ≠ "" ∧ Text.trim entry.issuer ≠ "" ∧ Text.trim entry.role ≠ ""

/-- A relationship holds between providers of the document. -/
def Connected (doc : NetworkDocument) (entry : TrustEntry) : Prop :=
  entry.source ∈ doc.providers.keys ∧ entry.target ∈ doc.providers.keys

/-- The first thing that a provider lacks. -/
inductive ProviderLacks (id : String) (entry : ProviderEntry) : ValidationError → Prop where
  | identifier (blank : Text.trim id = "") :
      ProviderLacks id entry (.invalidValue "providers" id "provider ID must not be empty")
  | issuer (named : Text.trim id ≠ "") (blank : Text.trim entry.issuer = "") :
      ProviderLacks id entry (.missingField ("providers." ++ id ++ ".issuer"))
  | role (named : Text.trim id ≠ "") (issued : Text.trim entry.issuer ≠ "")
      (blank : Text.trim entry.role = "") :
      ProviderLacks id entry (.missingField ("providers." ++ id ++ ".role"))

/-- The first end of the relationship at a position that is no provider. -/
inductive RelationshipLacks (doc : NetworkDocument) (entry : TrustEntry) (position : Nat) :
    ValidationError → Prop where
  | source (missing : entry.source ∉ doc.providers.keys) :
      RelationshipLacks doc entry position
        (.missingReference entry.source ("trust_relationships[" ++ toString position ++ "]"))
  | target (present : entry.source ∈ doc.providers.keys)
      (missing : entry.target ∉ doc.providers.keys) :
      RelationshipLacks doc entry position
        (.missingReference entry.target ("trust_relationships[" ++ toString position ++ "]"))

/-- A violation before which nothing is wrong with the document. -/
inductive FirstViolation (doc : NetworkDocument) : ValidationError → Prop where
  | unnamed (blank : Text.trim doc.networkId = "") :
      FirstViolation doc (.missingField "network_id")
  | provider {id : String} {entry : ProviderEntry} {error : ValidationError}
      (named : Text.trim doc.networkId ≠ "") (found : doc.providers.get? id = some entry)
      (least : ∀ id' entry', doc.providers.get? id' = some entry' → id' < id → Described id' entry')
      (lacks : ProviderLacks id entry error) : FirstViolation doc error
  | relationship {position : Nat} {entry : TrustEntry} {error : ValidationError}
      (named : Text.trim doc.networkId ≠ "")
      (described : ∀ id entry, doc.providers.get? id = some entry → Described id entry)
      (found : doc.relationships[position]? = some entry)
      (least : ∀ earlier < position, ∀ entry',
        doc.relationships[earlier]? = some entry' → doc.Connected entry')
      (lacks : RelationshipLacks doc entry position error) : FirstViolation doc error

theorem providerViolation?_eq_some_iff {id : String} {entry : ProviderEntry}
    {error : ValidationError} :
    providerViolation? id entry = some error ↔ ProviderLacks id entry error := by
  unfold providerViolation?
  simp only [Text.isBlank_iff_trim_eq_empty]
  constructor
  · intro h
    split at h
    · rename_i blank
      cases h
      exact .identifier blank
    · rename_i named
      split at h
      · rename_i blank
        cases h
        exact .issuer named blank
      · rename_i issued
        split at h
        · rename_i blank
          cases h
          exact .role named issued blank
        · cases h
  · rintro (blank | ⟨named, blank⟩ | ⟨named, issued, blank⟩)
    · rw [if_pos blank]
    · rw [if_neg named, if_pos blank]
    · rw [if_neg named, if_neg issued, if_pos blank]

theorem described_iff {id : String} {entry : ProviderEntry} :
    Described id entry ↔ providerViolation? id entry = none := by
  simp only [providerViolation?_eq_none_iff, Text.isBlank_eq_false_iff, Described]

theorem relationshipViolation?_eq_some_iff {doc : NetworkDocument} {entry : TrustEntry}
    {position : Nat} {error : ValidationError} :
    doc.relationshipViolation? entry position = some error ↔
      doc.RelationshipLacks entry position error := by
  unfold relationshipViolation?
  simp only [Bool.not_eq_true', ← Bool.not_eq_true, Table.contains_iff]
  constructor
  · intro h
    split at h
    · rename_i missing
      cases h
      exact .source missing
    · rename_i present
      split at h
      · rename_i missing
        cases h
        exact .target (not_not.1 present) missing
      · cases h
  · rintro (missing | ⟨present, missing⟩)
    · rw [if_pos missing]
    · rw [if_neg (not_not.2 present), if_pos missing]

theorem connected_iff {doc : NetworkDocument} {entry : TrustEntry} (position : Nat) :
    doc.Connected entry ↔ doc.relationshipViolation? entry position = none := by
  rw [relationshipViolation?_eq_none_iff, Table.contains_iff, Table.contains_iff, Connected]

variable {doc : NetworkDocument}

theorem validate_eq_error_iff {error : ValidationError} :
    doc.validate = .error error ↔ doc.violation? = some error := by
  unfold validate
  cases doc.violation? <;> simp

theorem findSome?_providers_eq_none_iff :
    (doc.providers.entries.findSome? fun e => providerViolation? e.1 e.2) = none ↔
      ∀ id entry, doc.providers.get? id = some entry → Described id entry := by
  simp only [List.findSome?_eq_none_iff, Prod.forall, described_iff, Table.get?_eq_some_iff]

theorem violation?_eq_some_iff {error : ValidationError} :
    doc.violation? = some error ↔ doc.FirstViolation error := by
  unfold violation?
  simp only [Text.isBlank_iff_trim_eq_empty]
  constructor
  · intro h
    split at h
    · rename_i blank
      cases h
      exact .unnamed blank
    · rename_i named
      rcases Option.or_eq_some_iff.1 h with h | ⟨hproviders, h⟩
      · obtain ⟨id, entry, found, violated, least⟩ :=
          doc.providers.findSome?_entries_eq_some_iff.1 h
        exact .provider named found
          (fun id' entry' found' hlt => described_iff.2 (least id' entry' found' hlt))
          (providerViolation?_eq_some_iff.1 violated)
      · obtain ⟨position, entry, found, violated, least⟩ := (findSome?_zipIdx_eq_some_iff _).1 h
        exact .relationship named (findSome?_providers_eq_none_iff.1 hproviders) found
          (fun earlier hlt entry' found' => (connected_iff earlier).2 (least _ hlt _ found'))
          (relationshipViolation?_eq_some_iff.1 violated)
  · rintro (blank | ⟨named, found, least, lacks⟩ | ⟨named, described, found, least, lacks⟩)
    · rw [if_pos blank]
    · rw [if_neg named, Option.or_eq_some_iff]
      refine Or.inl (doc.providers.findSome?_entries_eq_some_iff.2 ⟨_, _, found, ?_, ?_⟩)
      · exact providerViolation?_eq_some_iff.2 lacks
      · exact fun id' entry' found' hlt => described_iff.1 (least id' entry' found' hlt)
    · rw [if_neg named, Option.or_eq_some_iff]
      refine Or.inr ⟨findSome?_providers_eq_none_iff.2 described, ?_⟩
      refine (findSome?_zipIdx_eq_some_iff _).2 ⟨_, _, found, ?_, ?_⟩
      · exact relationshipViolation?_eq_some_iff.2 lacks
      · exact fun earlier hlt entry' found' => (connected_iff earlier).1 (least _ hlt _ found')

/-- A document is valid exactly when its network is named, its providers are described and its
relationships connect providers; any other one is refused for its first violation. -/
theorem validate_first_violation (doc : NetworkDocument) :
    (doc.validate = .ok () ↔ Text.trim doc.networkId ≠ "" ∧
      (∀ id entry, doc.providers.get? id = some entry → Described id entry) ∧
      ∀ entry ∈ doc.relationships, doc.Connected entry) ∧
    ∀ error, doc.validate = .error error ↔ doc.FirstViolation error := by
  refine ⟨?_, fun error => validate_eq_error_iff.trans violation?_eq_some_iff⟩
  rw [validate_eq_ok_iff]
  constructor
  · intro sound
    refine ⟨Text.isBlank_eq_false_iff.1 sound.named, fun id entry found => ?_, fun entry he => ?_⟩
    · simpa only [Described, Text.isBlank_eq_false_iff] using sound.described id entry found
    · simpa only [Connected, Table.contains_iff] using sound.connected entry he
  · rintro ⟨named, described, connected⟩
    refine ⟨Text.isBlank_eq_false_iff.2 named, fun id entry found => ?_, fun entry he => ?_⟩
    · simpa only [Described, Text.isBlank_eq_false_iff] using described id entry found
    · simpa only [Connected, Table.contains_iff] using connected entry he

/-- Two providers with faults, the later one with the graver, and a relationship to nowhere. -/
def untidy : NetworkDocument where
  networkId := "net"
  providers := .ofList [("c", ⟨"", "", {}⟩), ("a", ⟨"https://a", "peer", {}⟩),
    ("b", ⟨"https://b", "\u2003", {}⟩)]
  relationships := [⟨"a", "ghost", .explicit⟩]

/-- Sound providers and two relationships that miss one, at different ends. -/
def dangling : NetworkDocument where
  networkId := "net"
  providers := .ofList [("a", ⟨"https://a", "peer", {}⟩), ("b", ⟨"https://b", "hub", {}⟩)]
  relationships := [⟨"a", "b", .explicit⟩, ⟨"b", "B", .transitive⟩, ⟨"ghost", "a", .explicit⟩]

/-- The least provider decides and not the gravest fault; without one the first position does. -/
theorem validate_untidy_dangling :
    untidy.validate = .error (.missingField "providers.b.role") ∧
      untidy.FirstViolation (.missingField "providers.b.role") ∧
      dangling.validate = .error (.missingReference "B" "trust_relationships[1]") ∧
      dangling.FirstViolation (.missingReference "B" "trust_relationships[1]") := by
  have huntidy : untidy.validate = .error (.missingField "providers.b.role") := by decide +kernel
  have hdangling : dangling.validate =
      .error (.missingReference "B" "trust_relationships[1]") := by decide +kernel
  refine ⟨huntidy, ?_, hdangling, ?_⟩
  · exact ((validate_first_violation untidy).2 _).1 huntidy
  · exact ((validate_first_violation dangling).2 _).1 hdangling

end NetworkDocument

end Federation
