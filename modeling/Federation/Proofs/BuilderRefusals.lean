import Federation.Proofs.GraphRepresentation

/-!
# What the builder refuses

A builder that refuses a network reports its first fault. Which one that is can be read off the
calls: the name of the network comes first, then the providers in the order in which they were
added, and then the declarations of trust in theirs. How providers and declarations are mixed is of
no account.
-/

namespace Federation

namespace GraphBuilder

/-! ### Faults of one provider and of one edge -/

/-- The fault of a provider that comes after others. -/
def providerFault? (earlier : List ProviderId) (id : ProviderId) : Option GraphFault :=
  if id.isEmpty then some .emptyProviderId
  else if earlier.contains id then some (.duplicateProvider id)
  else none

/-- The fault of an edge between providers. -/
def edgeFault? (ids : List ProviderId) (e : TrustEdge) : Option GraphFault :=
  if !ids.contains e.source then some (.unknownEndpoint e.source e.target e.source)
  else if !ids.contains e.target then some (.unknownEndpoint e.source e.target e.target)
  else none

theorem checkProviders_cons (seen : List ProviderId) (node : ProviderNode)
    (rest : List ProviderNode) : checkProviders seen (node :: rest) =
      match providerFault? seen node.id with
      | some fault => .error fault
      | none => checkProviders (node.id :: seen) rest := by
  unfold providerFault?
  rw [checkProviders]
  split
  · rfl
  · split <;> rfl

theorem checkEdges_eq (ids : List ProviderId) (edges : List TrustEdge) : checkEdges ids edges =
    match edges.findSome? (edgeFault? ids) with
    | some fault => .error fault
    | none => .ok () := by
  induction edges with
  | nil => rfl
  | cons e rest ih =>
    rw [checkEdges, ih, List.findSome?_cons, edgeFault?]
    split
    · rfl
    · split <;> rfl

/-- The scan of the providers stops at the first one with a fault. -/
theorem checkProviders_eq_error_iff {seen : List ProviderId} {nodes : List ProviderNode}
    {fault : GraphFault} : checkProviders seen nodes = .error fault ↔
      ∃ before node after, nodes = before ++ node :: after ∧ checkProviders seen before = .ok () ∧
        providerFault? (before.reverse.map (·.id) ++ seen) node.id = some fault := by
  induction nodes generalizing seen with
  | nil => simp [checkProviders]
  | cons first rest ih =>
    rw [checkProviders_cons]
    cases hfirst : providerFault? seen first.id with
    | some found =>
      constructor
      · intro h
        cases h
        exact ⟨[], first, rest, rfl, rfl, hfirst⟩
      · rintro ⟨before, node, after, hsplit, hbefore, hnode⟩
        cases before with
        | nil =>
          obtain ⟨rfl, rfl⟩ := List.cons.inj hsplit
          exact congrArg Except.error (Option.some.inj (hfirst.symm.trans hnode))
        | cons head more =>
          obtain ⟨rfl, -⟩ := List.cons.inj hsplit
          rw [checkProviders_cons, hfirst] at hbefore
          cases hbefore
    | none =>
      have hstep : ∀ more, checkProviders seen (first :: more) =
          checkProviders (first.id :: seen) more := fun more => by
        rw [checkProviders_cons, hfirst]
      have hseen : ∀ more : List ProviderNode, (first :: more).reverse.map (·.id) ++ seen =
          more.reverse.map (·.id) ++ first.id :: seen := fun more => by simp
      refine ih.trans ⟨?_, ?_⟩
      · rintro ⟨before, node, after, rfl, hbefore, hnode⟩
        exact ⟨first :: before, node, after, rfl, (hstep before).trans hbefore,
          (hseen before).symm ▸ hnode⟩
      · rintro ⟨before, node, after, hsplit, hbefore, hnode⟩
        cases before with
        | nil =>
          obtain ⟨rfl, rfl⟩ := List.cons.inj hsplit
          cases hfirst.symm.trans hnode
        | cons head more =>
          obtain ⟨rfl, rfl⟩ := List.cons.inj hsplit
          exact ⟨more, node, after, rfl, (hstep more).symm.trans hbefore, hseen more ▸ hnode⟩

theorem checkEdges_eq_error_iff {ids : List ProviderId} {edges : List TrustEdge}
    {fault : GraphFault} : checkEdges ids edges = .error fault ↔
      ∃ before e after, edges = before ++ e :: after ∧ checkEdges ids before = .ok () ∧
        edgeFault? ids e = some fault := by
  have hbefore : ∀ before, checkEdges ids before = .ok () ↔
      ∀ e ∈ before, edgeFault? ids e = none := fun before => by
    rw [checkEdges_eq, ← List.findSome?_eq_none_iff]
    cases before.findSome? (edgeFault? ids) <;> simp
  have hfound : checkEdges ids edges = .error fault ↔
      edges.findSome? (edgeFault? ids) = some fault := by
    rw [checkEdges_eq]
    cases edges.findSome? (edgeFault? ids) <;> simp
  simp only [hfound, List.findSome?_eq_some_iff, hbefore, and_comm (a := edgeFault? ids _ = _)]

theorem build_eq_error_iff {b : GraphBuilder} {error : GraphError} :
    b.build = .error error ↔ ∃ fault, b.check = .error fault ∧ fault.toError = error := by
  rw [build]
  cases b.check with
  | error fault => simp
  | ok u => simp

theorem check_eq_error_iff {b : GraphBuilder} {fault : GraphFault} : b.check = .error fault ↔
    Text.isBlank b.networkId = true ∧ fault = .emptyNetworkId ∨
      Text.isBlank b.networkId = false ∧ (checkProviders [] b.nodes = .error fault ∨
        checkProviders [] b.nodes = .ok () ∧
          checkEdges (b.nodes.map (·.id)) b.edges = .error fault) := by
  unfold check
  cases Text.isBlank b.networkId <;> cases checkProviders [] b.nodes <;>
    simp [bind, Except.bind, throw, throwThe, MonadExceptOf.throw, eq_comm]

/-! ### Faults of a run -/

/-- Identifiers that providers of one network can have. -/
structure Identifies (ids : List ProviderId) : Prop where
  nonempty : ∀ id ∈ ids, id.text ≠ ""
  distinct : ids.Nodup

/-- Both ends of an edge are among the providers. -/
def Joins (ids : List ProviderId) (e : TrustEdge) : Prop :=
  e.source ∈ ids ∧ e.target ∈ ids

/-- The identifiers of the providers that calls add, in the order of the calls. -/
def addedIds (calls : List BuilderCall) : List ProviderId :=
  (calls.filterMap BuilderCall.provider?).map (·.id)

/-- A run of calls from which a graph is built. -/
structure Acceptable (networkId : String) (calls : List BuilderCall) : Prop where
  named : Text.trim networkId ≠ ""
  identifies : Identifies (addedIds calls)
  joins : ∀ e ∈ calls.filterMap BuilderCall.trust?, Joins (addedIds calls) e

/-- The first fault of a run of calls, as it is reported. Nothing that is looked at before it has a
fault. -/
inductive Refusal (networkId : String) (calls : List BuilderCall) : GraphError → Prop where
  | unnamed (blank : Text.trim networkId = "") :
      Refusal networkId calls (.invalidArgument "Network ID must not be empty")
  | emptyId {before after : List ProviderNode} {node : ProviderNode}
      (named : Text.trim networkId ≠ "")
      (split : calls.filterMap BuilderCall.provider? = before ++ node :: after)
      (identifies : Identifies (before.map (·.id))) (empty : node.id.text = "") :
      Refusal networkId calls (.invalidArgument "Provider ID must not be empty")
  | repeated {before after : List ProviderNode} {node : ProviderNode}
      (named : Text.trim networkId ≠ "")
      (split : calls.filterMap BuilderCall.provider? = before ++ node :: after)
      (identifies : Identifies (before.map (·.id))) (nonempty : node.id.text ≠ "")
      (known : node.id ∈ before.map (·.id)) :
      Refusal networkId calls
        (.invalidArgument ("Provider " ++ node.id.text ++ " is declared more than once"))
  | source {before after : List TrustEdge} {e : TrustEdge} (named : Text.trim networkId ≠ "")
      (identifies : Identifies (addedIds calls))
      (split : calls.filterMap BuilderCall.trust? = before ++ e :: after)
      (joins : ∀ earlier ∈ before, Joins (addedIds calls) earlier)
      (unknown : e.source ∉ addedIds calls) :
      Refusal networkId calls (.unknownProvider e.source)
  | target {before after : List TrustEdge} {e : TrustEdge} (named : Text.trim networkId ≠ "")
      (identifies : Identifies (addedIds calls))
      (split : calls.filterMap BuilderCall.trust? = before ++ e :: after)
      (joins : ∀ earlier ∈ before, Joins (addedIds calls) earlier)
      (known : e.source ∈ addedIds calls) (unknown : e.target ∉ addedIds calls) :
      Refusal networkId calls (.unknownProvider e.target)

theorem isEmpty_iff {id : ProviderId} : id.isEmpty = true ↔ id.text = "" :=
  String.isEmpty_iff

theorem isEmpty_eq_false_iff {id : ProviderId} : id.isEmpty = false ↔ id.text ≠ "" := by
  rw [← Bool.not_eq_true, isEmpty_iff]

theorem identifies_iff {nodes : List ProviderNode} :
    checkProviders [] nodes = .ok () ↔ Identifies (nodes.map (·.id)) := by
  rw [checkProviders_eq_ok_iff]
  constructor
  · rintro ⟨nonempty, distinct⟩
    refine ⟨fun id hid => ?_, distinct⟩
    obtain ⟨node, hnode, rfl⟩ := List.mem_map.1 hid
    exact isEmpty_eq_false_iff.1 (nonempty node hnode).1
  · rintro ⟨nonempty, distinct⟩
    refine ⟨fun node hnode => ⟨?_, List.not_mem_nil⟩, distinct⟩
    exact isEmpty_eq_false_iff.2 (nonempty _ (List.mem_map_of_mem hnode))

theorem providerFault?_eq_some_iff {earlier : List ProviderId} {id : ProviderId}
    {fault : GraphFault} : providerFault? earlier id = some fault ↔
      id.text = "" ∧ fault = .emptyProviderId ∨
        id.text ≠ "" ∧ id ∈ earlier ∧ fault = .duplicateProvider id := by
  unfold providerFault?
  simp only [isEmpty_iff, List.contains_iff_mem]
  by_cases hempty : id.text = ""
  · simp [hempty, eq_comm]
  · by_cases hknown : id ∈ earlier <;> simp [hempty, hknown, eq_comm]

theorem edgeFault?_eq_some_iff {ids : List ProviderId} {e : TrustEdge} {fault : GraphFault} :
    edgeFault? ids e = some fault ↔
      e.source ∉ ids ∧ fault = .unknownEndpoint e.source e.target e.source ∨
        e.source ∈ ids ∧ e.target ∉ ids ∧ fault = .unknownEndpoint e.source e.target e.target := by
  unfold edgeFault?
  by_cases hsource : e.source ∈ ids
  · by_cases htarget : e.target ∈ ids <;> simp [hsource, htarget, eq_comm]
  · simp [hsource, eq_comm]

section Run

variable {networkId : String} {calls : List BuilderCall}

theorem networkId_foldl_call (b : GraphBuilder) (calls : List BuilderCall) :
    (calls.foldl call b).networkId = b.networkId := by
  induction calls generalizing b with
  | nil => rfl
  | cons c rest ih =>
    rw [List.foldl_cons, ih]
    cases c <;> rfl

theorem networkId_run : (run networkId calls).networkId = networkId :=
  networkId_foldl_call _ calls

theorem map_id_nodes_run : (run networkId calls).nodes.map (·.id) = addedIds calls := by
  rw [nodes_run, addedIds]

theorem sound_run_iff : (run networkId calls).Sound ↔ Acceptable networkId calls := by
  have hidentifies : Identifies (addedIds calls) ↔
      checkProviders [] (run networkId calls).nodes = .ok () := by
    rw [identifies_iff, map_id_nodes_run]
  constructor
  · intro sound
    have hnamed := Text.isBlank_eq_false_iff.1 sound.named
    rw [networkId_run] at hnamed
    refine ⟨hnamed, hidentifies.2 ?_, fun e he => ?_⟩
    · exact (checkProviders_eq_ok_iff _ _).2
        ⟨fun node hnode => ⟨sound.identified node hnode, List.not_mem_nil⟩, sound.distinct⟩
    · rw [← edges_run networkId] at he
      have ends := sound.connected e he
      rwa [map_id_nodes_run] at ends
  · intro h
    have hproviders := (checkProviders_eq_ok_iff _ _).1 (hidentifies.1 h.identifies)
    refine ⟨?_, fun node hnode => (hproviders.1 node hnode).1, hproviders.2, fun e he => ?_⟩
    · rw [networkId_run]
      exact Text.isBlank_eq_false_iff.2 h.named
    · rw [map_id_nodes_run]
      exact h.joins e (edges_run networkId calls ▸ he)

theorem exists_build_run_iff :
    (∃ g, (run networkId calls).build = .ok g) ↔ Acceptable networkId calls :=
  exists_build_iff.trans sound_run_iff

/-- The order in which providers are added and trust is declared decides which fault is reported,
and not whether there is one. -/
theorem Acceptable.congr {calls' : List BuilderCall}
    (providers : (calls.filterMap BuilderCall.provider?).Perm
      (calls'.filterMap BuilderCall.provider?))
    (trusts : (calls.filterMap BuilderCall.trust?).Perm (calls'.filterMap BuilderCall.trust?))
    (h : Acceptable networkId calls) : Acceptable networkId calls' := by
  have hids : (addedIds calls).Perm (addedIds calls') := providers.map _
  refine ⟨h.named, ⟨fun id hid => ?_, ?_⟩, fun e he => ?_⟩
  · exact h.identifies.nonempty id (hids.mem_iff.2 hid)
  · exact hids.nodup_iff.1 h.identifies.distinct
  · have hjoins := h.joins e (trusts.mem_iff.2 he)
    exact ⟨hids.mem_iff.1 hjoins.1, hids.mem_iff.1 hjoins.2⟩

theorem Acceptable.perm {calls' : List BuilderCall} (perm : calls.Perm calls')
    (h : Acceptable networkId calls) : Acceptable networkId calls' :=
  h.congr (perm.filterMap _) (perm.filterMap _)

theorem refusal_of_check {fault : GraphFault} (h : (run networkId calls).check = .error fault) :
    Refusal networkId calls fault.toError := by
  rw [check_eq_error_iff, networkId_run, map_id_nodes_run, nodes_run, edges_run] at h
  rcases h with ⟨blank, rfl⟩ | ⟨named, hproviders | ⟨hproviders, hedges⟩⟩
  · exact .unnamed (Text.isBlank_iff_trim_eq_empty.1 blank)
  · have named := Text.isBlank_eq_false_iff.1 named
    obtain ⟨before, node, after, split, hbefore, hfault⟩ :=
      checkProviders_eq_error_iff.1 hproviders
    have identifies := identifies_iff.1 hbefore
    rcases providerFault?_eq_some_iff.1 hfault with ⟨empty, rfl⟩ | ⟨nonempty, known, rfl⟩
    · exact .emptyId named split identifies empty
    · exact .repeated named split identifies nonempty (by simpa using known)
  · have named := Text.isBlank_eq_false_iff.1 named
    have identifies : Identifies (addedIds calls) := identifies_iff.1 hproviders
    obtain ⟨before, e, after, split, hbefore, hfault⟩ := checkEdges_eq_error_iff.1 hedges
    have joins := (checkEdges_eq_ok_iff _ _).1 hbefore
    rcases edgeFault?_eq_some_iff.1 hfault with ⟨unknown, rfl⟩ | ⟨known, unknown, rfl⟩
    · exact .source named identifies split joins unknown
    · exact .target named identifies split joins known unknown

theorem check_of_provider {before after : List ProviderNode} {node : ProviderNode}
    {fault : GraphFault} (named : Text.trim networkId ≠ "")
    (split : calls.filterMap BuilderCall.provider? = before ++ node :: after)
    (identifies : Identifies (before.map (·.id)))
    (hfault : providerFault? (before.reverse.map (·.id) ++ []) node.id = some fault) :
    (run networkId calls).check = .error fault := by
  rw [check_eq_error_iff, networkId_run, nodes_run]
  have hproviders := checkProviders_eq_error_iff.2
    ⟨before, node, after, split, identifies_iff.2 identifies, hfault⟩
  exact Or.inr ⟨Text.isBlank_eq_false_iff.2 named, Or.inl hproviders⟩

theorem check_of_edge {before after : List TrustEdge} {e : TrustEdge} {fault : GraphFault}
    (named : Text.trim networkId ≠ "") (identifies : Identifies (addedIds calls))
    (split : calls.filterMap BuilderCall.trust? = before ++ e :: after)
    (joins : ∀ earlier ∈ before, Joins (addedIds calls) earlier)
    (hfault : edgeFault? (addedIds calls) e = some fault) :
    (run networkId calls).check = .error fault := by
  rw [check_eq_error_iff, networkId_run, map_id_nodes_run, nodes_run, edges_run]
  have hedges := checkEdges_eq_error_iff.2
    ⟨before, e, after, split, (checkEdges_eq_ok_iff _ _).2 joins, hfault⟩
  exact Or.inr ⟨Text.isBlank_eq_false_iff.2 named, Or.inr ⟨identifies_iff.2 identifies, hedges⟩⟩

theorem exists_check_of_refusal {error : GraphError} (h : Refusal networkId calls error) :
    ∃ fault, (run networkId calls).check = .error fault ∧ fault.toError = error := by
  cases h with
  | unnamed blank =>
    have blank := Text.isBlank_iff_trim_eq_empty.2 blank
    exact ⟨_, check_eq_error_iff.2 (Or.inl ⟨networkId_run ▸ blank, rfl⟩), rfl⟩
  | emptyId named split identifies empty =>
    refine ⟨.emptyProviderId, check_of_provider named split identifies ?_, rfl⟩
    exact providerFault?_eq_some_iff.2 (Or.inl ⟨empty, rfl⟩)
  | repeated named split identifies nonempty known =>
    refine ⟨.duplicateProvider _, check_of_provider named split identifies ?_, rfl⟩
    exact providerFault?_eq_some_iff.2 (Or.inr ⟨nonempty, by simpa using known, rfl⟩)
  | @source _ _ e named identifies split joins unknown =>
    refine ⟨.unknownEndpoint e.source e.target e.source,
      check_of_edge named identifies split joins ?_, rfl⟩
    exact edgeFault?_eq_some_iff.2 (Or.inl ⟨unknown, rfl⟩)
  | @target _ _ e named identifies split joins known unknown =>
    refine ⟨.unknownEndpoint e.source e.target e.target,
      check_of_edge named identifies split joins ?_, rfl⟩
    exact edgeFault?_eq_some_iff.2 (Or.inr ⟨known, unknown, rfl⟩)

theorem build_run_eq_error_iff {error : GraphError} :
    (run networkId calls).build = .error error ↔ Refusal networkId calls error := by
  rw [build_eq_error_iff]
  constructor
  · rintro ⟨fault, hcheck, rfl⟩
    exact refusal_of_check hcheck
  · exact exists_check_of_refusal

/-- The words for a network without a name stand for nothing else. -/
theorem refusal_unnamed_iff :
    Refusal networkId calls (.invalidArgument "Network ID must not be empty") ↔
      Text.trim networkId = "" := by
  constructor
  · generalize herror : GraphError.invalidArgument "Network ID must not be empty" = error
    intro h
    cases h with
    | unnamed blank => exact blank
    | emptyId => simp at herror
    | repeated =>
      have hwords := congrArg String.toList (GraphError.invalidArgument.inj herror)
      simp at hwords
    | source => cases herror
    | target => cases herror
  · exact .unnamed

end Run

/-- Every run of calls either makes a network that is built or is refused for its first fault.
Whether it is built does not depend on the order of the calls. -/
theorem build_run_verdict (networkId : String) (calls : List BuilderCall) :
    (∀ error, (run networkId calls).build = .error error ↔ Refusal networkId calls error) ∧
      ((run networkId calls).build = .error (.invalidArgument "Network ID must not be empty") ↔
        Text.trim networkId = "") ∧
      ((∃ g, (run networkId calls).build = .ok g) ↔ Acceptable networkId calls) ∧
      ∀ calls', calls.Perm calls' →
        ((∃ g, (run networkId calls).build = .ok g) ↔
          ∃ g, (run networkId calls').build = .ok g) := by
  refine ⟨fun error => build_run_eq_error_iff, build_run_eq_error_iff.trans refusal_unnamed_iff,
    exists_build_run_iff, fun calls' perm => ?_⟩
  rw [exists_build_run_iff, exists_build_run_iff]
  exact ⟨.perm perm, .perm perm.symm⟩

/-- Trust that is declared before its providers are added. -/
def declaredEarly : List BuilderCall :=
  [.addTrust ⟨"a"⟩ ⟨" "⟩ .explicit, .addTrust ⟨"a"⟩ ⟨"a"⟩ .explicit,
    .addProvider ⟨" "⟩ "https://blank" .peer, .setVersion "1", .addProvider ⟨"a"⟩ "https://a" .hub]

/-- Two edges that miss a provider, the first of them declared twice. -/
def missingEnds : List BuilderCall :=
  [.addTrust ⟨"a"⟩ ⟨"a"⟩ .explicit, .addTrust ⟨"a"⟩ ⟨"c"⟩ .explicit,
    .addTrust ⟨"b"⟩ ⟨"d"⟩ .explicit, .addProvider ⟨"a"⟩ "https://a" .hub,
    .addTrust ⟨"a"⟩ ⟨"c"⟩ .transitive]

/-- The same with a provider that is added once more, and one without an identifier after it. -/
def addedTwice : List BuilderCall :=
  missingEnds ++ [.addProvider ⟨"a"⟩ "https://a.example" .spoke, .addProvider ⟨""⟩ "" .peer]

theorem build_run_addedTwice :
    (∃ g, (run "net" declaredEarly).build = .ok g) ∧
      (∃ g, (run "net" declaredEarly.reverse).build = .ok g) ∧
      Refusal "net" missingEnds (.unknownProvider ⟨"c"⟩) ∧
      Refusal "net" addedTwice (.invalidArgument "Provider a is declared more than once") ∧
      Refusal "\u3000" addedTwice (.invalidArgument "Network ID must not be empty") := by
  have built : (run "net" declaredEarly).build = .ok (run "net" declaredEarly).freeze := rfl
  have missing : (run "net" missingEnds).build = .error (.unknownProvider ⟨"c"⟩) := by
    decide +kernel
  have twice : (run "net" addedTwice).build =
      .error (.invalidArgument "Provider a is declared more than once") := by decide +kernel
  obtain ⟨-, -, -, order⟩ := build_run_verdict "net" declaredEarly
  refine ⟨⟨_, built⟩, (order _ (List.reverse_perm _).symm).1 ⟨_, built⟩, ?_, ?_, ?_⟩
  · exact ((build_run_verdict "net" missingEnds).1 _).1 missing
  · exact ((build_run_verdict "net" addedTwice).1 _).1 twice
  · exact ((build_run_verdict "\u3000" addedTwice).1 _).1 (by decide +kernel)

end GraphBuilder

end Federation
