import Federation.Proofs.DocumentOutline
import Federation.Proofs.DocumentRecords
import Federation.Proofs.StoredDocument

/-!
# The version in the text of a document

The text of a document states the version of its registry as a date. Whatever the document is
written in and whatever else it holds, its version is the instant that the stated text is read as,
and any text that is a date can be stated.
-/

namespace Federation

/-- The version is the instant that the text is read as, or both are missing. -/
abbrev Dates (text : Option String) (version : Option Instant) : Prop :=
  Option.Rel (fun s t => Instant.read? s = some t) text version

/-! ### Stating a version -/

namespace NetworkDocument

variable {doc : NetworkDocument} {s : String} {t : Instant}

/-- The text of a document that states its version as the given text. -/
def textWith (doc : NetworkDocument) (version : String) : DocumentFormat → String
  | .yaml => (Yaml.Outline.record (doc.entries (some version))).write
  | .json => (Json.record (doc.members (some version))).pretty

/-- A document is written with its version in universal time. -/
theorem toText_eq_textWith (h : doc.registryVersion = some t) (format : DocumentFormat) :
    doc.toText format = doc.textWith (t.write "Z") format := by
  have hversion : doc.versionText = some (t.write "Z") := by rw [versionText, h, Option.map_some]
  cases format with
  | yaml => rw [toText, toYamlText, toYaml_eq, hversion, textWith]
  | json => rw [toText, toJsonText, toJson_eq, hversion, textWith]

/-- A document that states a date has this version, whichever way the date is written. -/
theorem parse_textWith (h : Instant.read? s = some t) (sound : doc.validate = .ok ())
    (format : DocumentFormat) : parse format (doc.textWith s format) =
      .ok { doc.normalized with registryVersion := some t } := by
  have hdate : ∀ s', some s = some s' → ∃ t, Instant.read? s' = some t := by
    rintro s' hs
    obtain rfl := Option.some.inj hs
    exact ⟨t, h⟩
  have hwith : doc.withVersion (some s) = { doc.normalized with registryVersion := some t } := by
    rw [withVersion, Option.bind_some, h]
  have hread : ofText format (doc.textWith s format) =
      .ok { doc.normalized with registryVersion := some t } := by
    rw [← hwith]
    cases format with
    | yaml =>
      rw [textWith, ofText, ofYamlText?_entries hdate]
      rfl
    | json =>
      rw [textWith, ofText, ofJsonText_members hdate]
      rfl
  -- whether a document is sound does not depend on its topology and its version
  have hcheck : check { doc.normalized with registryVersion := some t } = .ok () :=
    Outcome.mapError_eq_ok_iff.2 sound
  exact Outcome.bind_eq_ok_iff.2 ⟨_, hread, Outcome.bind_eq_ok_iff.2 ⟨(), hcheck, rfl⟩⟩

end NetworkDocument

/-! ### The version that a JSON text states -/

namespace Json

theorem read_of_readWhole {α : Type} {readItem : Json → Read α} {s : String} {x : α}
    (h : readWhole readItem s = .ok x) : readItem (read s).1 = .ok x := by
  unfold readWhole at h
  dsimp only at h
  split at h
  · cases h
  · rename_i y hread
    split at h
    · cases h
      exact hread
    · cases h

/-- The characters of a string. -/
def characters? : Json → Option String
  | text s => s
  | _ => none

theorem characters?_of_readText {expected s : String} {j : Json}
    (h : readText expected j = .ok s) : j.characters? = some s := by
  unfold readText at h
  split at h
  · cases h
    rfl
  · cases h

theorem readOption_instant {j : Json} {version : Option Instant}
    (h : readOption Instant.ofJson j = .ok version) : Dates j.characters? version := by
  unfold readOption at h
  split at h
  · cases h
    exact .none
  · obtain ⟨t, hread, rfl⟩ := Outcome.map_eq_ok_iff.1 h
    obtain ⟨s, htext, hdate⟩ := Outcome.bind_eq_ok_iff.1 hread
    split at hdate
    · rename_i hs
      cases hdate
      rw [characters?_of_readText htext]
      exact .some hs
    · cases hdate

end Json

namespace NetworkDocument

/-- The text that a tree states as the version of the registry. -/
def versionInJson? : Json → Option String
  | .object members => (Json.valuesOf "registry_version" members).head?.bind Json.characters?
  | .array items => items[2]?.bind Json.characters?
  | _ => none

/-- The version among values for its field: that of the only value, if there is one. -/
theorem version_of_holds {values : List Json} {version : Option Instant}
    (h : (Json.Slot.optional "registry_version" (Json.readOption Instant.ofJson) none .null
      readOption_nothing version).Holds values) :
    Dates (values.head?.bind Json.characters?) version := by
  rcases h with ⟨rfl, rfl⟩ | ⟨j, rfl, hread⟩
  · exact .none
  · exact Json.readOption_instant hread

theorem version_of_fits {doc : NetworkDocument} {items : List Json}
    (h : Json.Fits doc.slots items) : Dates (items[2]?.bind Json.characters?) doc.registryVersion :=
  match items, h with
  | [], hfits => version_of_holds hfits.2.2.1
  | [_], hfits => version_of_holds hfits.2.2.1
  | [_, _], hfits => version_of_holds hfits.2.2.1
  | _ :: _ :: _ :: _, hfits => version_of_holds hfits.2.2.1

theorem registryVersion_of_ofJson {doc : NetworkDocument} {j : Json} (h : ofJson j = .ok doc) :
    Dates (versionInJson? j) doc.registryVersion := by
  have hpresents := ofJson_eq_ok_iff.1 h
  cases j with
  | object members =>
    have hholds := hpresents.2
    simp only [slots, List.forall_mem_cons] at hholds
    exact version_of_holds hholds.2.2.1
  | array items => exact version_of_fits hpresents
  | _ => exact hpresents.elim

end NetworkDocument

/-! ### The version that a YAML text states -/

namespace Yaml

variable {α β : Type} {anchored : Array Node} {left left' more : Nat} {node node' : Node}

theorem bind_eq_some_iff {r : Read α} {f : α → Read β} {y : β × Nat} :
    (r >>= f) anchored left = some y ↔
      ∃ x between, r anchored left = some (x, between) ∧ f x anchored between = some y := by
  change (r anchored left).bind (fun p => f p.1 anchored p.2) = some y ↔ _
  rw [Option.bind_eq_some_iff, Prod.exists]

/-- Following repetitions uses them up, and to have more of them leaves more. -/
theorem follow?_spare (h : follow? anchored left node = some (node', left')) :
    left' ≤ left ∧
      ∀ more ≥ left, ∃ spare ≥ left', follow? anchored more node = some (node', spare) := by
  induction left generalizing node with
  | zero =>
    cases node with
    | again => cases h
    | _ =>
      cases h
      exact ⟨Nat.le_refl _, fun more hmore => ⟨more, hmore, by cases more <;> rfl⟩⟩
  | succ left ih =>
    cases node with
    | again anchor =>
      obtain ⟨target, hanchor, h⟩ := Option.bind_eq_some_iff.1 h
      obtain ⟨hle, hspare⟩ := ih h
      refine ⟨Nat.le_succ_of_le hle, fun more hmore => ?_⟩
      obtain ⟨more, rfl⟩ : ∃ n, more = n + 1 := ⟨more - 1, by omega⟩
      obtain ⟨spare, hge, hfollow⟩ := hspare more (Nat.le_of_succ_le_succ hmore)
      exact ⟨spare, hge, Option.bind_eq_some_iff.2 ⟨target, hanchor, hfollow⟩⟩
    | _ =>
      cases h
      exact ⟨Nat.le_refl _, fun more hmore => ⟨more, hmore, by cases more <;> rfl⟩⟩

theorem readText_eq_some {s : String} (h : readText node anchored left = some (s, left')) :
    ∃ tag plain, follow? anchored left node = some (.scalar tag plain s, left') := by
  obtain ⟨target, between, hfollow, h⟩ := bind_eq_some_iff.1 h
  split at h
  · cases h
    exact ⟨_, _, hfollow⟩
  · cases h

theorem readText_spare {s : String} (h : readText node anchored left = some (s, left')) :
    left' ≤ left ∧ ∀ more ≥ left, ∃ spare, readText node anchored more = some (s, spare) := by
  obtain ⟨tag, plain, hfollow⟩ := readText_eq_some h
  obtain ⟨hle, hspare⟩ := follow?_spare hfollow
  refine ⟨hle, fun more hmore => ?_⟩
  obtain ⟨spare, -, hfollow⟩ := hspare more hmore
  exact ⟨spare, bind_eq_some_iff.2 ⟨_, _, hfollow, rfl⟩⟩

theorem map_eq_some_iff {r : Read α} {f : α → β} {y : β} :
    (f <$> r) anchored left = some (y, left') ↔
      ∃ x, r anchored left = some (x, left') ∧ f x = y := by
  rw [map_eq_pure_bind, bind_eq_some_iff]
  constructor
  · rintro ⟨x, _, h, heq⟩
    cases heq
    exact ⟨x, h, rfl⟩
  · rintro ⟨x, h, rfl⟩
    exact ⟨x, left', h, rfl⟩

/-- Where a date is read, its text can be read as well. -/
theorem map_readText_instant {version : Option Instant}
    (h : (some <$> Instant.ofYaml node) anchored left = some (version, left'))
    (hmore : left ≤ more) : ∃ text spare,
      (some <$> readText node) anchored more = some (text, spare) ∧ Dates text version := by
  obtain ⟨t, hread, rfl⟩ := map_eq_some_iff.1 h
  obtain ⟨s, between, htext, hdate⟩ := bind_eq_some_iff.1 hread
  obtain ⟨spare, hspare⟩ := (readText_spare htext).2 more hmore
  refine ⟨some s, spare, map_eq_some_iff.2 ⟨s, hspare, rfl⟩, ?_⟩
  cases hs : Instant.read? s with
  | none =>
    rw [hs] at hdate
    cases hdate
  | some u =>
    rw [hs] at hdate
    cases hdate
    exact .some hs

/-- Whether a node that may be absent is; neither for a node that cannot be read at all. -/
def Node.absent? : Node → Option Bool
  | .scalar none true text => some (text.isEmpty || isNullWord text)
  | .scalar (some tag) true text =>
    if tag ≠ .null then some false else if isNullWord text then some true else none
  | _ => some false

theorem readOption_eq (read : Node → Read α) (node : Node) :
    readOption read node = resolve node >>= fun target =>
      match target.absent? with
      | some true => pure none
      | some false => some <$> read target
      | none => failure := by
  refine congrArg (resolve node >>= ·) (funext fun target => ?_)
  match target with
  | .scalar none true text =>
    have habsent : (Node.scalar none true text).absent? =
        some (text.isEmpty || isNullWord text) := rfl
    rw [habsent]
    by_cases hnothing : (text.isEmpty || isNullWord text) = true
    · rw [hnothing]
      exact if_pos hnothing
    · rw [Bool.eq_false_iff.2 hnothing]
      exact if_neg hnothing
  | .scalar (some tag) true text =>
    have habsent : (Node.scalar (some tag) true text).absent? =
        if tag ≠ .null then some false else if isNullWord text then some true else none := rfl
    rw [habsent]
    by_cases htag : tag ≠ .null
    · rw [if_pos htag]
      exact if_pos htag
    · rw [if_neg htag]
      refine (if_neg htag).trans ?_
      by_cases hnothing : isNullWord text = true
      · rw [if_pos hnothing, if_pos hnothing]
      · rw [if_neg hnothing, if_neg hnothing]
  | .scalar none false _ => rfl
  | .scalar (some _) false _ => rfl
  | .again _ => rfl
  | .sequence _ => rfl
  | .mapping _ => rfl

/-- Where a version is read that may be absent, its text can be read as well. -/
theorem readOption_instant {version : Option Instant}
    (h : readOption Instant.ofYaml node anchored left = some (version, left'))
    (hmore : left ≤ more) : ∃ text spare,
      readOption readText node anchored more = some (text, spare) ∧ Dates text version := by
  rw [readOption_eq] at h ⊢
  obtain ⟨target, between, hfollow, h⟩ := bind_eq_some_iff.1 h
  obtain ⟨left₂, hge, hfollow'⟩ := (follow?_spare hfollow).2 more hmore
  cases habsent : target.absent? with
  | none =>
    rw [habsent] at h
    cases h
  | some absent =>
    rw [habsent] at h
    cases absent with
    | true =>
      cases h
      exact ⟨none, left₂, bind_eq_some_iff.2 ⟨target, left₂, hfollow', by rw [habsent]; rfl⟩, .none⟩
    | false =>
      obtain ⟨text, spare, htext, hversion⟩ := map_readText_instant h hge
      refine ⟨text, spare, bind_eq_some_iff.2 ⟨target, left₂, hfollow', ?_⟩, hversion⟩
      rw [habsent]
      exact htext

variable {members : Members} {field : String}

theorem left_le_required {s : String}
    (h : members.required field readText anchored left = some (s, left')) : left' ≤ left := by
  cases hfield : members.lookup field with
  | none =>
    rw [Members.required, hfield] at h
    cases h
  | some node =>
    rw [Members.required, hfield] at h
    exact (readText_spare h).1

theorem left_le_optional {f : String → α} {absent x : α}
    (h : members.optional field (f <$> readText ·) absent anchored left = some (x, left')) :
    left' ≤ left := by
  cases hfield : members.lookup field with
  | none =>
    rw [Members.optional, hfield] at h
    cases h
    exact Nat.le_refl _
  | some node =>
    rw [Members.optional, hfield] at h
    obtain ⟨s, hread, -⟩ := map_eq_some_iff.1 h
    exact (readText_spare hread).1

/-- Where a version is read that may be left out, its text can be read as well. -/
theorem optional_instant {version : Option Instant}
    (h : members.optional field (readOption Instant.ofYaml) none anchored left =
      some (version, left')) (hmore : left ≤ more) : ∃ text spare,
      members.optional field (readOption readText) none anchored more = some (text, spare) ∧
        Dates text version := by
  cases hfield : members.lookup field with
  | none =>
    rw [Members.optional, hfield] at h ⊢
    cases h
    exact ⟨none, more, rfl, .none⟩
  | some node =>
    rw [Members.optional, hfield] at h ⊢
    exact readOption_instant h hmore

end Yaml

namespace NetworkDocument

open Yaml

/-- Reads the text that a node states as the version of the registry. -/
def readVersion (node : Node) : Yaml.Read (Option String) := do
  let members ← readMembers fieldNames node
  members.optional "registry_version" (readOption readText) none

theorem registryVersion_of_ofYaml {doc : NetworkDocument} {anchored : Array Node}
    {node : Node} {left left' : Nat} (h : ofYaml node anchored left = some (doc, left')) :
    ∃ text spare, readVersion node anchored left = some (text, spare) ∧
      Dates text doc.registryVersion := by
  obtain ⟨members, left₁, hmembers, h⟩ := bind_eq_some_iff.1 h
  obtain ⟨networkId, left₂, hnetworkId, h⟩ := bind_eq_some_iff.1 h
  obtain ⟨topology, left₃, htopology, h⟩ := bind_eq_some_iff.1 h
  obtain ⟨version, left₄, hversion, h⟩ := bind_eq_some_iff.1 h
  obtain ⟨metadata, _, _, h⟩ := bind_eq_some_iff.1 h
  obtain ⟨providers, _, _, h⟩ := bind_eq_some_iff.1 h
  obtain ⟨relationships, _, _, h⟩ := bind_eq_some_iff.1 h
  cases h
  have hle : left₃ ≤ left₁ := (left_le_optional htopology).trans (left_le_required hnetworkId)
  obtain ⟨text, spare, htext, hdates⟩ := optional_instant hversion hle
  exact ⟨text, spare, bind_eq_some_iff.2 ⟨members, left₁, hmembers, htext⟩, hdates⟩

/-- The text that the text of a document states as the version of the registry. -/
def statedVersion? (format : DocumentFormat) (text : String) : Option String :=
  match format with
  | .yaml => do (← (← Yaml.Document.ofText? text).read? readVersion)
  | .json => versionInJson? (Json.read text).1

/-- The version of a document that was read is the date that its text states. -/
theorem registryVersion_of_parse {format : DocumentFormat} {text : String} {doc : NetworkDocument}
    (h : parse format text = .ok doc) : Dates (statedVersion? format text) doc.registryVersion := by
  obtain ⟨read, hread, h⟩ := Outcome.bind_eq_ok_iff.1 h
  obtain ⟨_, -, h⟩ := Outcome.bind_eq_ok_iff.1 h
  cases h
  cases format with
  | json =>
    exact registryVersion_of_ofJson
      (Json.read_of_readWhole (Outcome.mapError_eq_ok_iff.1 hread))
  | yaml =>
    cases hyaml : ofYamlText? text with
    | none =>
      rw [ofText, hyaml] at hread
      cases hread
    | some read =>
      rw [ofText, hyaml] at hread
      cases hread
      obtain ⟨document, hdocument, hyaml⟩ := Option.bind_eq_some_iff.1 hyaml
      obtain ⟨⟨_, left⟩, hnode, rfl⟩ := Option.map_eq_some_iff.1 hyaml
      obtain ⟨stated, spare, hstated, hversion⟩ := registryVersion_of_ofYaml hnode
      have hread : document.read? readVersion = some stated :=
        Option.map_eq_some_iff.2 ⟨(stated, spare), hstated, rfl⟩
      have htext : statedVersion? .yaml text = stated := by
        rw [statedVersion?, hdocument, Option.bind_eq_bind, Option.bind_some, hread]
        rfl
      exact htext ▸ hversion

theorem gives_readVersion (doc : NetworkDocument) (s : String) :
    Gives (readVersion (Outline.record (doc.entries (some s))).node) (some s) := by
  have hlookup := doc.lookup_laterEntries (some s) (doc.lookup_version (some s)) (by decide)
    (by decide)
  exact gives_bind (gives_readMembers _ (doc.distinct_entries (some s)))
    (gives_optional hlookup (gives_readOption (gives_readText s)) none)

/-- The text that a document is written with for its version is the one that it states. -/
theorem statedVersion?_textWith (doc : NetworkDocument) (s : String) (format : DocumentFormat) :
    statedVersion? format (doc.textWith s format) = some s := by
  cases format with
  | yaml =>
    have hread := doc.gives_readVersion s
    rw [entries] at hread
    rw [textWith, statedVersion?, entries, Document.ofText?_write]
    change ((readVersion _ _ _).map Prod.fst).bind id = _
    rw [hread]
    rfl
  | json =>
    have hmetadata : Json.valuesOf "registry_version" (Json.named (metadataMember doc.metadata)) =
        [] := by
      unfold metadataMember
      split <;> simp [Json.named, Json.valuesOf]
    have hvalues : Json.valuesOf "registry_version" (Json.named (doc.members (some s))) =
        [.str s] := by
      have hsplit : Json.named (doc.members (some s)) =
          [(some "network_id", .str doc.networkId), (some "topology_type", doc.topology.toJson),
            (some "registry_version", .str s)] ++ (Json.named (metadataMember doc.metadata) ++
          [(some "providers", tableToJson ProviderEntry.toJson doc.providers),
            (some "trust_relationships", .array (doc.relationships.map TrustEntry.toJson))]) := by
        simp [members, versionMember, Json.named]
      rw [hsplit, Json.valuesOf_append, Json.valuesOf_append, hmetadata]
      simp [Json.valuesOf]
    have hversion : versionInJson? (.record (doc.members (some s))) =
        (Json.valuesOf "registry_version" (Json.named (doc.members (some s)))).head?.bind
          Json.characters? := rfl
    rw [textWith, statedVersion?, (doc.legible_members (some s)).read_pretty, hversion, hvalues]
    rfl

end NetworkDocument

end Federation
