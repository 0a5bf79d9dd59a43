import Federation.Document.Store
import Federation.Proofs.CompactText
import Federation.Proofs.DocumentRecords
import Mathlib.Logic.Relation

/-!
# Presentations of a document

The same document can be presented in many ways: records by their members in any order and among
unknown ones, or by their fields in order, and levels by their name alone or beside nothing. Each
step from one presentation to another leaves what is read as it is, and so do any number of steps,
however deep in the document they are made.
-/

namespace Federation

open Federation.Json Federation.Outcome

/-! ### Parts of a value -/

namespace Json

variable {α : Type} {readItem : Json → Read α} {value value' : Json}

/-- A member of a table can be presented in another way. -/
theorem readTable_replace {before after : List (Option String × Json)} {key : Option String}
    {t : Table String α} (same : ∀ x, readItem value = .ok x → readItem value' = .ok x)
    (h : readTable readItem (.object (before ++ (key, value) :: after)) = .ok t) :
    readTable readItem (.object (before ++ (key, value') :: after)) = .ok t := by
  simp only [readTable, List.foldlM_append, List.foldlM_cons, bind_eq_ok_iff] at h ⊢
  obtain ⟨t₁, hbefore, t₂, ⟨name, hname, x, hx, heq⟩, hafter⟩ := h
  exact ⟨t₁, hbefore, t₂, ⟨name, hname, x, same x hx, heq⟩, hafter⟩

/-- An item of a list can be presented in another way. -/
theorem readList_replace {before after : List Json} {l : List α}
    (same : ∀ x, readItem value = .ok x → readItem value' = .ok x)
    (h : readList readItem (.array (before ++ value :: after)) = .ok l) :
    readList readItem (.array (before ++ value' :: after)) = .ok l := by
  simp only [readList, List.mapM_append, List.mapM_cons, bind_eq_ok_iff] at h ⊢
  obtain ⟨first, hbefore, rest, ⟨x, hx, last, hafter, hrest⟩, heq⟩ := h
  exact ⟨first, hbefore, rest, ⟨x, same x hx, last, hafter, hrest⟩, heq⟩

/-- A text is read as a value exactly if it denotes a tree that is. -/
theorem readWhole_eq_ok_iff {s : String} {x : α} :
    readWhole readItem s = .ok x ↔ ∃ j, Denotes s j ∧ readItem j = .ok x := by
  simp only [denotes_iff, readWhole]
  constructor
  · intro h
    split at h
    · cases h
    · rename_i y hread
      split at h
      · rename_i complete
        obtain rfl := Except.ok.inj h
        exact ⟨(read s).1, Prod.ext rfl complete, hread⟩
      · cases h
  · rintro ⟨j, hread, hx⟩
    simp only [hread, hx, if_true]

end Json

/-! ### Levels -/

/-- From the name of a level to an object with the name and nothing. -/
inductive TrustLevel.Recast : Json → Json → Prop where
  | wrap (level : TrustLevel) : Recast (.str level.word) (.object [(some level.word, .null)])

theorem TrustLevel.ofJson_recast {level : TrustLevel} {j j' : Json} (recast : Recast j j')
    (h : ofJson j = .ok level) : ofJson j' = .ok level := by
  cases recast with
  | wrap other =>
    rw [← h]
    cases other <;> rfl

/-! ### Providers and relationships -/

/-- A step between presentations of a provider. -/
def ProviderEntry.Recast : Json → Json → Prop :=
  Json.Recast fields fun _ _ _ => False

theorem ProviderEntry.ofJson_recast {entry : ProviderEntry} {j j' : Json} (recast : Recast j j')
    (h : ofJson j = .ok entry) : ofJson j' = .ok entry :=
  ofJson_eq_ok_iff.2 (presents_recast entry.slots_fields False.elim recast (ofJson_eq_ok_iff.1 h))

/-- A step inside a relationship: its level is presented in another way. -/
inductive TrustEntry.Inner : String → Json → Json → Prop where
  | level {j j' : Json} (recast : TrustLevel.Recast j j') : Inner "level" j j'

/-- A step between presentations of a relationship. -/
def TrustEntry.Recast : Json → Json → Prop :=
  Json.Recast fields Inner

theorem TrustEntry.holds_inner {entry : TrustEntry} {name : String} {j j' : Json}
    (inner : Inner name j j') : name ∈ fields.map (·.name) ∧
      ∀ slot ∈ entry.slots, slot.name = name → slot.Holds [j] → slot.Holds [j'] := by
  have distinct : (entry.slots.map (·.name)).Nodup := by
    change (fields.map (·.name)).Nodup
    decide
  cases inner with
  | level recast =>
    have hslot := List.mem_of_getElem? (l := entry.slots) (i := 2) rfl
    refine ⟨by decide, holds_of_named distinct hslot fun h => ?_⟩
    have hlevel := TrustLevel.ofJson_recast recast (optional_holds_singleton.1 h)
    exact optional_holds_singleton.2 hlevel

theorem TrustEntry.ofJson_recast {entry : TrustEntry} {j j' : Json} (recast : Recast j j')
    (h : ofJson j = .ok entry) : ofJson j' = .ok entry :=
  ofJson_eq_ok_iff.2 (presents_recast entry.slots_fields holds_inner recast (ofJson_eq_ok_iff.1 h))

/-! ### Networks -/

namespace NetworkDocument

/-- A step inside a document: a provider or a relationship is presented in another way. -/
inductive Inner : String → Json → Json → Prop where
  | provider (before after : List (Option String × Json)) {key : Option String} {j j' : Json}
      (recast : ProviderEntry.Recast j j') : Inner "providers"
        (.object (before ++ (key, j) :: after)) (.object (before ++ (key, j') :: after))
  | relationship (before after : List Json) {j j' : Json} (recast : TrustEntry.Recast j j') :
      Inner "trust_relationships" (.array (before ++ j :: after)) (.array (before ++ j' :: after))

/-- A step between presentations of a document. -/
def Recast : Json → Json → Prop :=
  Json.Recast fields Inner

theorem holds_inner {doc : NetworkDocument} {name : String} {j j' : Json}
    (inner : Inner name j j') : name ∈ fields.map (·.name) ∧
      ∀ slot ∈ doc.slots, slot.name = name → slot.Holds [j] → slot.Holds [j'] := by
  have distinct : (doc.slots.map (·.name)).Nodup := by
    change (fields.map (·.name)).Nodup
    decide
  cases inner with
  | provider before after recast =>
    have hslot := List.mem_of_getElem? (l := doc.slots) (i := 4) rfl
    refine ⟨by decide, holds_of_named distinct hslot fun h => ?_⟩
    exact optional_holds_singleton.2 (readTable_replace
      (fun _ => ProviderEntry.ofJson_recast recast) (optional_holds_singleton.1 h))
  | relationship before after recast =>
    have hslot := List.mem_of_getElem? (l := doc.slots) (i := 5) rfl
    refine ⟨by decide, holds_of_named distinct hslot fun h => ?_⟩
    exact optional_holds_singleton.2 (readList_replace
      (fun _ => TrustEntry.ofJson_recast recast) (optional_holds_singleton.1 h))

/-- One step leaves the document as it is. -/
theorem ofJson_recast {doc : NetworkDocument} {j j' : Json} (recast : Recast j j')
    (h : ofJson j = .ok doc) : ofJson j' = .ok doc :=
  ofJson_eq_ok_iff.2 (presents_recast doc.slots_fields holds_inner recast (ofJson_eq_ok_iff.1 h))

/-- Any number of steps leave the document as it is. -/
theorem ofJson_recasts {doc : NetworkDocument} {j j' : Json}
    (recasts : Relation.ReflTransGen Recast j j') (h : ofJson j = .ok doc) :
    ofJson j' = .ok doc := by
  induction recasts with
  | refl => exact h
  | tail _ recast ih => exact ofJson_recast recast ih

theorem parse_json_eq_ok_iff {s : String} {doc : NetworkDocument} : parse .json s = .ok doc ↔
    (∃ j, Json.Denotes s j ∧ ofJson j = .ok doc) ∧ doc.check = .ok () := by
  rw [← readWhole_eq_ok_iff, parse, bind_eq_ok_iff]
  constructor
  · rintro ⟨read, hread, h⟩
    obtain ⟨_, hcheck, heq⟩ := bind_eq_ok_iff.1 h
    cases heq
    exact ⟨mapError_eq_ok_iff.1 hread, hcheck⟩
  · rintro ⟨hread, hcheck⟩
    exact ⟨doc, mapError_eq_ok_iff.2 hread, bind_eq_ok_iff.2 ⟨(), hcheck, rfl⟩⟩

/-- A document that is accepted is the same in every presentation that steps lead to from its own,
in whatever text that presentation is spelt. -/
theorem parse_presentation {s : String} {doc : NetworkDocument}
    (accepted : parse .json s = .ok doc) :
    ∃ j, Json.Denotes s j ∧ ∀ j', Relation.ReflTransGen Recast j j' →
      ∀ s', Json.Denotes s' j' → parse .json s' = .ok doc := by
  obtain ⟨⟨j, hs, hread⟩, hcheck⟩ := parse_json_eq_ok_iff.1 accepted
  exact ⟨j, hs, fun j' recasts s' hs' =>
    parse_json_eq_ok_iff.2 ⟨⟨j', hs', ofJson_recasts recasts hread⟩, hcheck⟩⟩

/-- Two providers that trust each other. -/
def crossTrust : NetworkDocument where
  networkId := "n"
  providers := .ofList [("a", ⟨"i", "peer", {}⟩), ("b", ⟨"j", "hub", {}⟩)]
  relationships := [⟨"a", "b", .explicit⟩, ⟨"b", "a", .transitive⟩]

/-- The document as an object, by its providers and its relationships. -/
def crossObject (a b first second : Json) : Json :=
  .record [("network_id", .str "n"), ("providers", .record [("a", a), ("b", b)]),
    ("trust_relationships", .array [first, second])]

/-- The document as an array. -/
def crossArray (a b first second : Json) : Json :=
  .array [.str "n", .str "hub-and-spoke", .null, .record [], .record [("a", a), ("b", b)],
    .array [first, second]]

/-- An object of two members. -/
def crossPair (name value name' value' : String) : Json :=
  .record [(name, .str value), (name', .str value')]

/-- A provider with an unknown member that holds a number out of range. -/
def crossPeer : Json :=
  .record [("x", .array [.number "1e999", .array [.array []]]), ("issuer", .str "i"),
    ("role", .str "peer")]

/-- A relationship as an array, by its level. -/
def crossEdge (level : Json) : Json :=
  .array [.str "b", .str "a", level]

/-- Objects throughout. -/
def crossTree : Json :=
  crossObject (crossPair "issuer" "i" "role" "peer") (crossPair "role" "hub" "issuer" "j")
    (crossPair "from" "a" "to" "b")
    (.record [("from", .str "b"), ("to", .str "a"), ("level", .str "transitive")])

/-- Some arrays, an unknown member and a level beside nothing. -/
def crossTree' : Json :=
  crossArray crossPeer (.array [.str "j", .str "hub"]) (crossPair "to" "b" "from" "a")
    (crossEdge (.record [("transitive", .null)]))

/-- All parts of the object are presented in another way. -/
theorem crossObject_recasts {a a' b b' first first' second second' : Json}
    (ha : ProviderEntry.Recast a a') (hb : ProviderEntry.Recast b b')
    (hfirst : TrustEntry.Recast first first') (hsecond : TrustEntry.Recast second second') :
    Relation.ReflTransGen Recast (crossObject a b first second)
      (crossObject a' b' first' second') := by
  have h₁ : Recast (crossObject a b first second) (crossObject a' b first second) :=
    .member [_] [_] (.provider [] [_] ha)
  have h₂ : Recast (crossObject a' b first second) (crossObject a' b' first second) :=
    .member [_] [_] (.provider [_] [] hb)
  have h₃ : Recast (crossObject a' b' first second) (crossObject a' b' first' second) :=
    .member [_, _] [] (.relationship [] [_] hfirst)
  have h₄ : Recast (crossObject a' b' first' second) (crossObject a' b' first' second') :=
    .member [_, _] [] (.relationship [_] [] hsecond)
  exact .tail (.tail (.tail (.single h₁) h₂) h₃) h₄

theorem crossTree_recasts : Relation.ReflTransGen Recast crossTree crossTree' := by
  have ha : ProviderEntry.Recast (crossPair "issuer" "i" "role" "peer") crossPeer :=
    .insert [] _ (by decide) rfl
  have hb : ProviderEntry.Recast (crossPair "role" "hub" "issuer" "j")
      (.array [.str "j", .str "hub"]) :=
    .list (.given rfl (.given rfl (.done (by decide))))
  have hfirst : TrustEntry.Recast (crossPair "from" "a" "to" "b") (crossPair "to" "b" "from" "a") :=
    .permute (.swap ..)
  have hsecond : TrustEntry.Recast
      (.record [("from", .str "b"), ("to", .str "a"), ("level", .str "transitive")])
      (crossEdge (.str "transitive")) :=
    .list (.given rfl (.given rfl (.given rfl (.done nofun))))
  have hwhole : Recast
      (crossObject crossPeer (.array [.str "j", .str "hub"]) (crossPair "to" "b" "from" "a")
        (crossEdge (.str "transitive")))
      (crossArray crossPeer (.array [.str "j", .str "hub"]) (crossPair "to" "b" "from" "a")
        (crossEdge (.str "transitive"))) :=
    .list (.given rfl (.default rfl rfl (.default rfl rfl (.default rfl rfl
      (.given rfl (.given rfl (.done nofun)))))))
  have hlevel : Recast
      (crossArray crossPeer (.array [.str "j", .str "hub"]) (crossPair "to" "b" "from" "a")
        (crossEdge (.str "transitive"))) crossTree' :=
    .item [_, _, _, _, _] [] rfl (.relationship [_] [] (.item [_, _] [] rfl
      (.level (.wrap .transitive))))
  exact .tail (.tail (crossObject_recasts ha hb hfirst hsecond) hwhole) hlevel

def crossText : String :=
  "\x7b\"network_id\":\"n\",\"providers\":\x7b\"a\":\x7b\"issuer\":\"i\",\"role\":\"peer\"\x7d," ++
    "\"b\":\x7b\"role\":\"hub\",\"issuer\":\"j\"\x7d\x7d,\"trust_relationships\":[" ++
    "\x7b\"from\":\"a\",\"to\":\"b\"\x7d," ++
    "\x7b\"from\":\"b\",\"to\":\"a\",\"level\":\"transitive\"\x7d]\x7d"

def crossText' : String :=
  "[\"n\",\"hub-and-spoke\",null,\x7b\x7d,\x7b\"a\":\x7b\"x\":[1e999,[[]]],\"issuer\":\"i\"," ++
    "\"role\":\"peer\"\x7d,\"b\":[\"j\",\"hub\"]\x7d,[\x7b\"to\":\"b\",\"from\":\"a\"\x7d," ++
    "[\"b\",\"a\",\x7b\"transitive\":null\x7d]]]"

theorem numberText_beyond : NumberText "1e999".toList :=
  have hread : number? "1e999".toList = some ("1e999", []) := by decide +kernel
  (number?_eq_some hread).2

theorem denotes_crossText : Json.Denotes crossText crossTree := by
  have hwritable : Writable crossTree := by
    simp [crossTree, crossObject, crossPair]
  have htext : crossTree.compact = crossText := by decide +kernel
  exact htext ▸ hwritable.denotes_compact

theorem denotes_crossText' : Json.Denotes crossText' crossTree' := by
  have hwritable : Writable crossTree' := by
    simp [crossTree', crossArray, crossPair, crossPeer, crossEdge,
      Writable.number numberText_beyond]
  have htext : crossTree'.compact = crossText' := by decide +kernel
  exact htext ▸ hwritable.denotes_compact

theorem parse_presentation_crossTrust : parse .json crossText = .ok crossTrust ∧
    Json.Denotes crossText crossTree ∧ Relation.ReflTransGen Recast crossTree crossTree' ∧
    Json.Denotes crossText' crossTree' ∧ parse .json crossText' = .ok crossTrust := by
  have hread : ofJson crossTree = .ok crossTrust := by decide +kernel
  have hcheck : crossTrust.check = .ok () := by decide +kernel
  have accepted : parse .json crossText = .ok crossTrust :=
    parse_json_eq_ok_iff.2 ⟨⟨crossTree, denotes_crossText, hread⟩, hcheck⟩
  obtain ⟨j, hj, same⟩ := parse_presentation accepted
  obtain rfl := hj.unique denotes_crossText
  exact ⟨accepted, hj, crossTree_recasts, denotes_crossText',
    same _ crossTree_recasts _ denotes_crossText'⟩

end NetworkDocument

end Federation
