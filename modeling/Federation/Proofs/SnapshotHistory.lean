import Federation.Proofs.LoadedNetwork
import Federation.Proofs.SnapshotLookup

/-!
# Histories of snapshot sets

Sets of snapshots are made from nothing, from graphs, from files, or from a set that was made
before, which any number of later sets may go back to. What a set holds is decided by the graphs
that were added on its own way, and what was made before stays as it was.
-/

namespace Federation

namespace SnapshotSet

/-- The graph of a network that was added last. -/
def latest? (added : List TrustGraph) (networkId : String) : Option TrustGraph :=
  (added.filter (·.networkId = networkId)).getLast?

/-- A set holds what was added on the way to it, and all its views agree. -/
structure Keeps (s : SnapshotSet) (added : List TrustGraph) : Prop where
  graph?_eq : ∀ networkId, s.graph? networkId = latest? added networkId
  named : ∀ networkId g, s.graph? networkId = some g → g.networkId = networkId
  networkIds_ascending : s.networkIds.Pairwise (· < ·)
  mem_networkIds_iff : ∀ networkId,
    networkId ∈ s.networkIds ↔ ∃ g, s.graph? networkId = some g
  size_eq : s.size = s.networkIds.length

theorem latest?_concat (added : List TrustGraph) (g : TrustGraph) (networkId : String) :
    latest? (added ++ [g]) networkId =
      if networkId == g.networkId then some g else latest? added networkId := by
  by_cases hid : networkId = g.networkId
  · subst hid
    simp [latest?, List.filter_append]
  · have hid' : g.networkId ≠ networkId := fun h => hid h.symm
    simp [latest?, List.filter_append, hid, hid']

/-- Looking up is enough to know what a set keeps. -/
theorem keeps_of_graph?_eq {s : SnapshotSet} {added : List TrustGraph}
    (h : ∀ networkId, s.graph? networkId = latest? added networkId) : s.Keeps added where
  graph?_eq := h
  named networkId g hg := by
    rw [h] at hg
    have hmem := List.mem_of_getLast? hg
    exact of_decide_eq_true (List.mem_filter.1 hmem).2
  networkIds_ascending := s.graphs.keys_ascending
  mem_networkIds_iff _ := Table.mem_keys_iff
  size_eq := (List.length_map ..).symm

theorem keeps_empty : empty.Keeps [] :=
  keeps_of_graph?_eq fun _ => rfl

theorem Keeps.withGraph {s : SnapshotSet} {added : List TrustGraph} (h : s.Keeps added)
    (g : TrustGraph) : (s.withGraph g).Keeps (added ++ [g]) := by
  apply keeps_of_graph?_eq
  intro networkId
  rw [graph?_withGraph, latest?_concat, h.graph?_eq]

theorem Keeps.foldlM_addNew {gs added : List TrustGraph} {s s' : SnapshotSet} (h : s.Keeps added)
    (collected : gs.foldlM addNew s = .ok s') : s'.Keeps (added ++ gs) := by
  induction gs generalizing s added with
  | nil =>
    cases collected
    rwa [List.append_nil]
  | cons g rest ih =>
    rw [List.foldlM_cons] at collected
    obtain ⟨next, hnext, hrest⟩ := Outcome.bind_eq_ok_iff.1 collected
    -- a graph that is added at all is added as it is to a set that may have an earlier one
    have kept : next.Keeps (added ++ [g]) := by
      unfold addNew at hnext
      split at hnext
      · cases hnext
      · cases hnext
        exact h.withGraph g
    rw [List.append_cons]
    exact ih kept hrest

theorem keeps_ofGraphs {gs : List TrustGraph} {s : SnapshotSet} (h : ofGraphs gs = .ok s) :
    s.Keeps gs :=
  keeps_empty.foldlM_addNew h

/-- Loading fails for the first file that cannot be loaded; only if there is none, the graphs are
compared. -/
theorem load_eq_error_iff {files : Files} {paths : List String} {e : NetworkError} :
    load files paths = .error e ↔
      (∃ before path after, paths = before ++ path :: after ∧
        (∀ p ∈ before, ∃ g, TrustGraph.load files p = .ok g) ∧
        TrustGraph.load files path = .error e) ∨
      ∃ gs, paths.mapM (TrustGraph.load files) = .ok gs ∧ ofGraphs gs = .error e := by
  unfold load
  rw [Outcome.bind_eq_error_iff, Outcome.mapM_eq_error_iff]

end SnapshotSet

/-- A set that was made, with the graphs that were added on the way to it. -/
structure SnapshotVersion where
  set : SnapshotSet
  added : List TrustGraph

/-- An operation that makes a set. Files are read as they are at that time, and sets that were made
before are named by their number. -/
inductive SnapshotCall where
  | new
  | ofGraphs (graphs : List TrustGraph)
  | load (files : Files) (paths : List String)
  | withGraph (version : Nat) (graph : TrustGraph)

namespace SnapshotVersion

/-- What an operation makes when it succeeds; adding to a set goes on from what was added to it. -/
def make? (made : List SnapshotVersion) : SnapshotCall → Option SnapshotVersion
  | .new => some ⟨.empty, []⟩
  | .ofGraphs graphs => do
    let set ← (SnapshotSet.ofGraphs graphs).toOption
    return ⟨set, graphs⟩
  | .load files paths => do
    let graphs ← (paths.mapM (TrustGraph.load files)).toOption
    let set ← (SnapshotSet.load files paths).toOption
    return ⟨set, graphs⟩
  | .withGraph version graph => do
    let earlier ← made[version]?
    return ⟨earlier.set.withGraph graph, earlier.added ++ [graph]⟩

/-- The sets that were made, one after another, with the one that an operation makes. -/
def step (made : List SnapshotVersion) (c : SnapshotCall) : List SnapshotVersion :=
  made ++ (make? made c).toList

/-- The sets that a sequence of operations makes. -/
def run (calls : List SnapshotCall) : List SnapshotVersion :=
  calls.foldl step []

theorem keeps_of_make? {made : List SnapshotVersion} (h : ∀ v ∈ made, v.set.Keeps v.added)
    {c : SnapshotCall} {v : SnapshotVersion} (hv : make? made c = some v) :
    v.set.Keeps v.added := by
  cases c with
  | new =>
    cases hv
    exact SnapshotSet.keeps_empty
  | ofGraphs graphs =>
    obtain ⟨set, hset, hv⟩ := Option.bind_eq_some_iff.1 hv
    cases hv
    exact SnapshotSet.keeps_ofGraphs (Outcome.toOption_eq_some_iff.1 hset)
  | load files paths =>
    obtain ⟨graphs, hgraphs, hv⟩ := Option.bind_eq_some_iff.1 hv
    obtain ⟨set, hset, hv⟩ := Option.bind_eq_some_iff.1 hv
    cases hv
    -- the graphs that were collected are the ones that the files hold
    have loaded := Outcome.toOption_eq_some_iff.1 hgraphs
    obtain ⟨_, loaded', collected⟩ :=
      Outcome.bind_eq_ok_iff.1 (Outcome.toOption_eq_some_iff.1 hset)
    rw [loaded] at loaded'
    cases loaded'
    exact SnapshotSet.keeps_ofGraphs collected
  | withGraph version graph =>
    obtain ⟨earlier, hearlier, hv⟩ := Option.bind_eq_some_iff.1 hv
    cases hv
    exact (h earlier (List.mem_of_getElem? hearlier)).withGraph graph

/-- An operation makes a set that holds what was added, if those before it do. -/
theorem keeps_step {made : List SnapshotVersion} (h : ∀ v ∈ made, v.set.Keeps v.added)
    (c : SnapshotCall) : ∀ v ∈ step made c, v.set.Keeps v.added := by
  intro v hv
  rcases List.mem_append.1 hv with hv | hv
  · exact h v hv
  · exact keeps_of_make? h (Option.mem_toList.1 hv)

/-- Every set of a history holds what was added on the way to it. -/
theorem keeps_foldl_step (calls : List SnapshotCall) {made : List SnapshotVersion}
    (h : ∀ v ∈ made, v.set.Keeps v.added) : ∀ v ∈ calls.foldl step made, v.set.Keeps v.added := by
  induction calls generalizing made with
  | nil => exact h
  | cons c rest ih => exact ih (keeps_step h c)

/-- Operations leave what was made before them as it is. -/
theorem getElem?_foldl_step (calls : List SnapshotCall) {made : List SnapshotVersion} {i : Nat}
    {v : SnapshotVersion} (h : made[i]? = some v) : (calls.foldl step made)[i]? = some v := by
  induction calls generalizing made with
  | nil => exact h
  | cons c rest ih =>
    apply ih
    rw [step, List.getElem?_append_left (List.getElem?_eq_some_iff.1 h).1]
    exact h

/-- Every set of a history holds under each name the graph of that network that was added last on
its own way, and later operations leave it as it is. Graphs are collected unless two share their
network, and then the first one that comes too late is named; their order does not matter
otherwise. A file that cannot be loaded is reported before networks are compared, the first such
file first. -/
theorem history_keeps (calls : List SnapshotCall) :
    (∀ v ∈ run calls, v.set.Keeps v.added) ∧
      (∀ more (i : Nat) v, (run calls)[i]? = some v → (run (calls ++ more))[i]? = some v) ∧
      (∀ gs, (∃ e, SnapshotSet.ofGraphs gs = .error e) ↔ ¬ (gs.map (·.networkId)).Nodup) ∧
      (∀ gs e, SnapshotSet.ofGraphs gs = .error e ↔ ∃ before g after, gs = before ++ g :: after ∧
        (before.map (·.networkId)).Nodup ∧ g.networkId ∈ before.map (·.networkId) ∧
        e = .duplicate g.networkId) ∧
      (∀ gs gs' s, gs.Perm gs' → SnapshotSet.ofGraphs gs = .ok s →
        ∃ s', SnapshotSet.ofGraphs gs' = .ok s' ∧
          ∀ networkId, s'.graph? networkId = s.graph? networkId) ∧
      ∀ files paths e, SnapshotSet.load files paths = .error e ↔
        (∃ before path after, paths = before ++ path :: after ∧
          (∀ p ∈ before, ∃ g, TrustGraph.load files p = .ok g) ∧
          TrustGraph.load files path = .error e) ∨
        ∃ gs, paths.mapM (TrustGraph.load files) = .ok gs ∧ SnapshotSet.ofGraphs gs = .error e := by
  refine ⟨?_, ?_, ?_, ?_, ?_, ?_⟩
  · exact keeps_foldl_step calls (List.forall_mem_nil _)
  · intro more i v hv
    unfold run
    rw [List.foldl_append]
    exact getElem?_foldl_step more hv
  · intro gs
    exact SnapshotSet.exists_ofGraphs_error_iff
  · intro gs e
    exact SnapshotSet.ofGraphs_eq_error_iff
  · intro gs gs' s perm collected
    exact SnapshotSet.exists_ofGraphs_of_perm perm collected
  · intro files paths e
    exact SnapshotSet.load_eq_error_iff

/-- A network with one hub. -/
def oneHub (networkId issuer : String) : TrustGraph :=
  GraphBuilder.freeze { networkId, nodes := [⟨⟨"a"⟩, issuer, .hub, {}⟩] }

def oldOne : TrustGraph :=
  oneHub "one" "https://old"

def newOne : TrustGraph :=
  oneHub "one" "https://new"

def two : TrustGraph :=
  oneHub "two" "https://two"

/-- The set with the old graph is extended twice, by the new graph of its network and by another
network. -/
def branching : List SnapshotCall :=
  [.new, .withGraph 0 oldOne, .withGraph 1 newOne, .withGraph 1 two, .ofGraphs [oldOne, newOne]]

def oneDocument : NetworkDocument where
  networkId := "one"
  providers := .ofList [("a", ⟨"https://old", "hub", {}⟩)]

/-- A single file that can be loaded. -/
def onlyOne : Files := fun path =>
  if path = "one.json" then .ok oneDocument.toJsonText else .error .notFound

/-- The set that was extended twice still holds the old graph. What was made from it holds the new
one, or the old one beside another network. -/
theorem history_keeps_branching :
    (∃ first second third, (run branching)[1]? = some first ∧ (run branching)[2]? = some second ∧
      (run branching)[3]? = some third ∧ first.set.graph? "one" = some oldOne ∧
      second.set.graph? "one" = some newOne ∧ third.set.graph? "one" = some oldOne ∧
      (run (branching ++ [.withGraph 1 newOne]))[1]? = some first) ∧
      SnapshotSet.ofGraphs [oldOne, newOne] = .error (.duplicate "one") ∧
      (∃ s s', SnapshotSet.ofGraphs [oldOne, two] = .ok s ∧
        SnapshotSet.ofGraphs [two, oldOne] = .ok s' ∧
        ∀ networkId, s'.graph? networkId = s.graph? networkId) ∧
      SnapshotSet.load onlyOne ["one.json", "two.json", "one.json"] =
        .error (.notLoaded "two.json" (.file .notFound)) := by
  obtain ⟨keeps, stays, -, error_iff, perm, load_error_iff⟩ := history_keeps branching
  have loaded : TrustGraph.load onlyOne "one.json" = .ok oneDocument.normalized.toBuilder.freeze :=
    TrustGraph.load_of_stored (by decide +kernel) rfl (by decide +kernel) (fun _ h => nomatch h)
  refine ⟨⟨_, _, _, rfl, rfl, rfl, ?_, ?_, ?_, ?_⟩, ?_, ?_, ?_⟩
  · exact (keeps _ (List.mem_of_getElem? (i := 1) rfl)).graph?_eq "one"
  · exact (keeps _ (List.mem_of_getElem? (i := 2) rfl)).graph?_eq "one"
  · exact (keeps _ (List.mem_of_getElem? (i := 3) rfl)).graph?_eq "one"
  · exact stays _ 1 _ rfl
  · exact (error_iff _ _).2 ⟨[oldOne], newOne, [], rfl, by decide, by decide, rfl⟩
  · obtain ⟨s', collected, same⟩ := perm _ _ _ (List.Perm.swap two oldOne []) rfl
    exact ⟨_, s', rfl, collected, same⟩
  · refine (load_error_iff _ _ _).2 (Or.inl ⟨["one.json"], "two.json", ["one.json"], rfl, ?_, rfl⟩)
    rintro p hp
    obtain rfl := List.mem_singleton.1 hp
    exact ⟨_, loaded⟩

end SnapshotVersion

end Federation
