import Federation.Proofs.DocumentGraph
import Federation.Proofs.ParsedDocument

/-!
# Networks that name a topology

The topology of a graph is given by its name, in a call to its builder or in the document that it
was made from. Either way it is what the name is understood as, which does not depend on white
space around it.
-/

namespace Federation

/-! ### Reading the name from a document -/

namespace NetworkDocument

section OfJson

open Json

/-- The topology is set by the member of that name, and by no other. -/
theorem Draft.topology_of_read {d d' : Draft} {m : Option String × Json} (h : d.read m = .ok d') :
    (∀ t, d.topology = some t → d'.topology = some t) ∧
      (∀ name, m = (some "topology_type", .str name) → d'.topology = some (.ofName name)) := by
  obtain ⟨field, hfield, h⟩ := Outcome.bind_eq_ok_iff.1 h
  have named : ∀ name, m = (some "topology_type", .str name) → field = "topology_type" := by
    rintro name rfl
    exact (Except.ok.inj hfield).symm
  split at h
  case h_2 =>
    obtain ⟨x, hx, h⟩ := Outcome.bind_eq_ok_iff.1 h
    cases h
    unfold readField at hx
    split at hx
    · cases hx
    · rename_i absent
      obtain ⟨t, ht, rfl⟩ := Outcome.map_eq_ok_iff.1 hx
      constructor
      · intro u hu
        rw [absent] at hu
        cases hu
      · rintro name rfl
        obtain rfl := Except.ok.inj ht
        rfl
  case h_7 other _ _ _ _ =>
    obtain ⟨_, -, h⟩ := Outcome.bind_eq_ok_iff.1 h
    cases h
    exact ⟨fun t ht => ht, fun name hm => absurd (named name hm) other⟩
  all_goals
    obtain ⟨x, -, h⟩ := Outcome.bind_eq_ok_iff.1 h
    cases h
    exact ⟨fun t ht => ht, fun name hm => absurd (named name hm) (by decide)⟩

theorem Draft.topology_of_foldlM {members : List (Option String × Json)} {d d' : Draft}
    (h : members.foldlM Draft.read d = .ok d') :
    (∀ t, d.topology = some t → d'.topology = some t) ∧
      (∀ name, (some "topology_type", Json.str name) ∈ members →
        d'.topology = some (.ofName name)) := by
  induction members generalizing d with
  | nil =>
    cases h
    exact ⟨fun _ ht => ht, fun _ hmem => nomatch hmem⟩
  | cons m rest ih =>
    rw [List.foldlM_cons] at h
    obtain ⟨next, hnext, hrest⟩ := Outcome.bind_eq_ok_iff.1 h
    obtain ⟨kept, set⟩ := topology_of_read hnext
    obtain ⟨kept_rest, set_rest⟩ := ih hrest
    refine ⟨fun t ht => kept_rest t (kept t ht), fun name hmem => ?_⟩
    rcases List.mem_cons.1 hmem with rfl | hmem
    · exact kept_rest _ (set name rfl)
    · exact set_rest name hmem

theorem topology_of_ofJson {members : List (Option String × Json)} {doc : NetworkDocument}
    (h : ofJson (.object members) = .ok doc) {name : String}
    (hmem : (some "topology_type", .str name) ∈ members) : doc.topology = .ofName name := by
  obtain ⟨d, hd, h⟩ := Outcome.bind_eq_ok_iff.1 h
  have htopology := (Draft.topology_of_foldlM hd).2 name hmem
  obtain ⟨networkId, -, h⟩ := Outcome.bind_eq_ok_iff.1 h
  cases h
  rw [htopology]
  rfl

end OfJson

section OfYaml

open Yaml

theorem exists_mem_of_mapM {α β : Type} {read : α → Yaml.Read β} {l : List α} {x : α}
    (hx : x ∈ l) {P : β → Prop} (hread : Yields (read x) P) :
    Yields (l.mapM read) fun ys => ∃ y ∈ ys, P y := by
  induction l with
  | nil => cases hx
  | cons head rest ih =>
    rw [List.mapM_cons]
    rcases List.mem_cons.1 hx with rfl | hx
    · exact hread.bind fun y hy => (yields_trivial _).bind fun ys _ =>
        yields_pure ⟨y, List.mem_cons_self, hy⟩
    · exact (yields_trivial _).bind fun _ _ => (ih hx).bind fun _ ⟨y, hmem, hy⟩ =>
        yields_pure ⟨y, List.mem_cons_of_mem _ hmem, hy⟩

theorem yields_readText (tag : Option Tag) (plain : Bool) (text : String) :
    Yields (readText (.scalar tag plain text)) (· = text) := by
  intro anchored left x left' h
  cases left <;> exact (Prod.mk.inj (Option.some.inj h)).1.symm

/-- Of the fields of a record each stands at most once, so what stands among the members is
found. -/
theorem lookup_of_mem {members : Members} {field : String} {node : Node}
    (hmem : (field, node) ∈ members) (once : (members.filter (·.1 == field)).length ≤ 1) :
    members.lookup field = some node := by
  induction members with
  | nil => cases hmem
  | cons head rest ih =>
    obtain ⟨name, other⟩ := head
    by_cases hname : name = field
    · subst hname
      have hrest : (name, node) ∉ rest := by
        intro hmem
        have hfilter : (name, node) ∈ rest.filter (·.1 == name) :=
          List.mem_filter.2 ⟨hmem, beq_self_eq_true name⟩
        have hpos := List.length_pos_of_mem hfilter
        simp only [List.filter_cons, beq_self_eq_true, if_true, List.length_cons] at once
        omega
      rcases List.mem_cons.1 hmem with heq | hmem
      · obtain rfl := (Prod.mk.inj heq).2
        simp
      · exact absurd hmem hrest
    · have hne : (field == name) = false := by simpa using Ne.symm hname
      have hne' : (name == field) = false := by simpa using hname
      have hrest : (field, node) ∈ rest := by
        rcases List.mem_cons.1 hmem with heq | hmem
        · exact absurd (Prod.mk.inj heq).1.symm hname
        · exact hmem
      rw [List.lookup_cons, hne]
      refine ih hrest ?_
      simpa [List.filter_cons, hne'] using once

theorem yields_readMembers {fields : List String} {field : String} (hfield : field ∈ fields)
    {entries : List (Node × Node)} {tag : Option Tag} {plain : Bool} {node : Node}
    (hmem : (.scalar tag plain field, node) ∈ entries) :
    Yields (readMembers fields (.mapping entries)) fun members =>
      members.lookup field = some node := by
  have hentry : Yields (readEntry pure (.scalar tag plain field, node)) (· = (field, node)) := by
    refine (yields_readText tag plain field).bind fun key hkey => ?_
    refine (yields_pure rfl : Yields (pure node) (· = node)).bind fun value hvalue => ?_
    exact yields_pure (by rw [hkey, hvalue])
  have hresolve : Yields (resolve (.mapping entries)) (· = .mapping entries) := by
    intro anchored left x left' h
    cases left <;> exact (Prod.mk.inj (Option.some.inj h)).1.symm
  refine hresolve.bind fun _ hnode => ?_
  subst hnode
  refine (exists_mem_of_mapM hmem hentry).bind fun members hmembers => ?_
  obtain ⟨_, hmembers, rfl⟩ := hmembers
  split
  · rename_i once
    exact yields_pure (lookup_of_mem hmembers (by simpa using List.all_eq_true.1 once field hfield))
  · exact yields_failure

theorem yields_topology {entries : List (Node × Node)} {tag tag' : Option Tag}
    {plain plain' : Bool} {name : String}
    (hmem : (.scalar tag plain "topology_type", .scalar tag' plain' name) ∈ entries) :
    Yields (ofYaml (.mapping entries)) fun doc => doc.topology = .ofName name := by
  have hfield : "topology_type" ∈ fieldNames := by simp [fieldNames]
  refine (yields_readMembers hfield hmem).bind fun members hlookup => ?_
  have htopology : Yields
      (members.optional "topology_type" (Topology.ofName <$> readText ·) .hubAndSpoke)
      (· = .ofName name) := by
    rw [Members.optional, hlookup]
    exact (yields_readText tag' plain' name).map fun s hs => by rw [hs]
  refine (yields_trivial _).bind fun networkId _ => ?_
  refine htopology.bind fun topology htopology => ?_
  refine (yields_trivial _).bind fun version _ => ?_
  refine (yields_trivial _).bind fun metadata _ => ?_
  refine (yields_trivial _).bind fun providers _ => ?_
  refine (yields_trivial _).bind fun relationships _ => ?_
  exact yields_pure htopology

theorem topology_of_ofYaml {document : Document} {entries : List (Node × Node)}
    (root : document.root = .mapping entries) {doc : NetworkDocument}
    (h : document.read? ofYaml = some doc) {tag tag' : Option Tag} {plain plain' : Bool}
    {name : String}
    (hmem : (.scalar tag plain "topology_type", .scalar tag' plain' name) ∈ entries) :
    doc.topology = .ofName name := by
  obtain ⟨⟨read, left⟩, hread, rfl⟩ := Option.map_eq_some_iff.1 h
  rw [root] at hread
  exact yields_topology hmem _ _ _ _ hread

end OfYaml

end NetworkDocument

/-! ### Graphs by the name of their topology -/

/-- The topology of a graph was given as a name: by the last call to its builder that sets one, or
by the document in JSON or YAML that it was made from. -/
inductive TrustGraph.NamedAs (g : TrustGraph) (name : String) : Prop where
  | built {networkId : String} {before after : List BuilderCall}
      (last : ∀ topology, .setTopology topology ∉ after)
      (h : (GraphBuilder.run networkId
        (before ++ .setTopology (.ofName name) :: after)).build = .ok g)
  | json {members : List (Option String × Json)} {doc : NetworkDocument}
      (field : (some "topology_type", .str name) ∈ members)
      (read : NetworkDocument.ofJson (.object members) = .ok doc) (h : doc.toGraph = .ok g)
  | yaml {document : Yaml.Document} {entries : List (Yaml.Node × Yaml.Node)}
      (root : document.root = .mapping entries) {tag tag' : Option Yaml.Tag}
      {plain plain' : Bool} {doc : NetworkDocument}
      (field : (.scalar tag plain "topology_type", .scalar tag' plain' name) ∈ entries)
      (read : document.read? NetworkDocument.ofYaml = some doc) (h : doc.toGraph = .ok g)

namespace GraphBuilder

theorem topology_foldl_call (b : GraphBuilder) {calls : List BuilderCall}
    (h : ∀ topology, .setTopology topology ∉ calls) :
    (calls.foldl call b).topology = b.topology := by
  induction calls generalizing b with
  | nil => rfl
  | cons c rest ih =>
    rw [List.foldl_cons, ih _ fun t ht => h t (List.mem_cons_of_mem _ ht)]
    cases c with
    | setTopology topology => exact absurd List.mem_cons_self (h topology)
    | _ => rfl

theorem topology_of_build {b : GraphBuilder} {g : TrustGraph} (built : b.build = .ok g) :
    g.topology = b.topology := by
  obtain ⟨-, rfl⟩ := build_eq_ok_iff.1 built
  rfl

end GraphBuilder

/-- The topology of a graph is what its name is understood as. -/
theorem TrustGraph.NamedAs.topology_eq {g : TrustGraph} {name : String} (h : g.NamedAs name) :
    g.topology = .ofName name := by
  cases h with
  | built last h =>
    rw [GraphBuilder.topology_of_build h, GraphBuilder.run, List.foldl_append, List.foldl_cons,
      GraphBuilder.topology_foldl_call _ last]
    rfl
  | json field read h =>
    rw [NetworkDocument.topology_of_toGraph h, NetworkDocument.topology_of_ofJson read field]
  | yaml root field read h =>
    rw [NetworkDocument.topology_of_toGraph h, NetworkDocument.topology_of_ofYaml root read field]

end Federation
