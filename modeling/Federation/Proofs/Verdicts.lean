import Federation.Proofs.CommandLines
import Federation.Proofs.LoadedNetwork
import Federation.Proofs.Permission

/-!
# Verdicts

The command line, the gate and the summary look up the policy of a network each on its own, and
treat a topology that no policy serves each in its own way. They still give the same verdict.
-/

namespace Federation

namespace TrustGraph

/-! ### Checking the topology -/

section Topology

variable {g : TrustGraph} {registry : PolicyRegistry}

theorem requirePolicy_of_unserved (unserved : registry.forGraph? g = none) :
    g.requirePolicy registry = .error (.unknownTopology g.topology.name) := by
  rw [requirePolicy, unserved]

theorem requirePolicy_of_served {p : Policy} (served : registry.forGraph? g = some p) :
    g.requirePolicy registry = .ok p := by
  rw [requirePolicy, served]

theorem checkTopology_of_unserved (unserved : registry.forGraph? g = none) :
    g.checkTopology registry = .error (.unknownTopology g.topology.name) :=
  Outcome.bind_eq_error_iff.2 (Or.inl (requirePolicy_of_unserved unserved))

theorem checkTopology_of_fitting {p : Policy} (served : registry.forGraph? g = some p)
    (fitting : p.validates (some g) = true) : g.checkTopology registry = .ok () := by
  apply Outcome.bind_eq_ok_iff.2
  refine ⟨p, requirePolicy_of_served served, ?_⟩
  rw [fitting]
  rfl

theorem checkTopology_of_unfitting {p : Policy} (served : registry.forGraph? g = some p)
    (unfitting : p.validates (some g) = false) :
    g.checkTopology registry = .error (.unfitting g.networkId p.topology) := by
  apply Outcome.bind_eq_error_iff.2
  refine Or.inr ⟨p, requirePolicy_of_served served, ?_⟩
  rw [unfitting]
  rfl

/-- Checking succeeds when there is a policy and the network has the structure it needs. -/
theorem checkTopology_eq_ok_iff : g.checkTopology registry = .ok () ↔
    ∃ p, registry.forGraph? g = some p ∧ p.validates (some g) = true := by
  constructor
  · intro checked
    cases served : registry.forGraph? g with
    | none =>
      rw [checkTopology_of_unserved served] at checked
      cases checked
    | some p =>
      cases fitting : p.validates (some g) with
      | true => exact ⟨p, rfl, fitting⟩
      | false =>
        rw [checkTopology_of_unfitting served fitting] at checked
        cases checked
  · rintro ⟨p, served, fitting⟩
    exact checkTopology_of_fitting served fitting

/-- The summary says of the topology what checking it says. -/
structure SameFit (g : TrustGraph) (registry : PolicyRegistry) : Prop where
  fitting_iff : (g.summary registry).fits = some true ↔ g.checkTopology registry = .ok ()
  unfitting_iff : (g.summary registry).fits = some false ↔
    ∃ topology, g.checkTopology registry = .error (.unfitting g.networkId topology)
  unknown_iff : (g.summary registry).fits = none ↔
    g.checkTopology registry = .error (.unknownTopology g.topology.name)

theorem sameFit (g : TrustGraph) (registry : PolicyRegistry) : g.SameFit registry := by
  have fits : (g.summary registry).fits =
    (registry.forGraph? g).map fun policy => policy.validates (some g) := rfl
  cases served : registry.forGraph? g with
  | none =>
    have check := checkTopology_of_unserved served
    constructor <;> simp [fits, served, check]
  | some p =>
    cases fitting : p.validates (some g) with
    | true =>
      have check := checkTopology_of_fitting served fitting
      constructor <;> simp [fits, served, fitting, check]
    | false =>
      have check := checkTopology_of_unfitting served fitting
      constructor <;> simp [fits, served, fitting, check]

end Topology

theorem forGraph?_standard (g : TrustGraph) : PolicyRegistry.standard.forGraph? g =
    if g.topology.name == "peer-to-peer" then some PeerToPeer.standard.policy
    else if g.topology.name == "hub-and-spoke" then some HubAndSpoke.policy
    else none :=
  PolicyRegistry.get?_standard g.topology.name

/-- A network fits a built-in topology by its name if it is peer-to-peer, and by its hubs
otherwise. -/
theorem checkTopology_standard_iff (g : TrustGraph) : g.checkTopology .standard = .ok () ↔
    g.topology.name = "peer-to-peer" ∨ g.topology.name = "hub-and-spoke" ∧ g.hubs ≠ [] := by
  rw [checkTopology_eq_ok_iff, forGraph?_standard]
  by_cases peer : g.topology.name = "peer-to-peer"
  · simp [peer, PeerToPeer.policy, PeerToPeer.validates]
  by_cases hub : g.topology.name = "hub-and-spoke"
  · simp [hub, HubAndSpoke.policy, HubAndSpoke.validates]
  · simp [peer, hub]

end TrustGraph

namespace Command

variable {files : Files} {file : String} {g : TrustGraph}

/-- The exit code of `validate` tells whether the network is loaded and fits its topology. -/
theorem exitCode_runValidate : (runValidate files file).exitCode = 0 ↔
    ∃ g, TrustGraph.load files file = .ok g ∧ g.checkTopology .standard = .ok () := by
  rw [RunOutcome.exitCode_eq_zero_iff, runValidate]
  cases TrustGraph.load files file with
  | error e => simp
  | ok g =>
    cases hcheck : g.checkTopology .standard with
    | error e => simp [hcheck]
    | ok u => simp [hcheck]

theorem runPath_of_served (loaded : TrustGraph.load files file = .ok g) {p : Policy}
    (served : PolicyRegistry.standard.forGraph? g = some p) (source target : String) (json : Bool) :
    runPath files file source target json =
      let r := p.trustPath g ⟨source⟩ ⟨target⟩
      ⟨lines [if json then r.toJson.pretty else pathLine r], none⟩ := by
  have required := TrustGraph.requirePolicy_of_served served
  have found : findPath files file ⟨source⟩ ⟨target⟩ = .ok (p.trustPath g ⟨source⟩ ⟨target⟩) :=
    Outcome.bind_eq_ok_iff.2 ⟨g, loaded, Outcome.bind_eq_ok_iff.2 ⟨p, required, rfl⟩⟩
  rw [runPath, found]

theorem runPath_of_unserved (loaded : TrustGraph.load files file = .ok g)
    (unserved : PolicyRegistry.standard.forGraph? g = none) (source target : String) (json : Bool) :
    runPath files file source target json =
      ⟨"", some (.network (.unknownTopology g.topology.name))⟩ := by
  have missing := TrustGraph.requirePolicy_of_unserved unserved
  have failed : findPath files file ⟨source⟩ ⟨target⟩ =
      .error (.unknownTopology g.topology.name) :=
    Outcome.bind_eq_error_iff.2 (Or.inr ⟨g, loaded, Outcome.bind_eq_error_iff.2 (Or.inl missing)⟩)
  rw [runPath, failed]

/-- `validate` succeeds for networks of peers, and for those around a hub if there is one. -/
theorem exitCode_validate_iff : (runValidate files file).exitCode = 0 ↔
    ∃ g, TrustGraph.load files file = .ok g ∧ (g.topology = .peerToPeer ∨
      g.topology = .hubAndSpoke ∧ ∃ id node, g.node? id = some node ∧ node.role.tag = "hub") := by
  rw [exitCode_runValidate]
  refine exists_congr fun g => and_congr_right fun loaded => ?_
  have understood := TrustGraph.understood_of_load loaded
  rw [TrustGraph.checkTopology_standard_iff, understood.hubs_ne_nil_iff,
    ← understood.topology_eq_iff Topology.ofName_peerToPeer,
    ← understood.topology_eq_iff Topology.ofName_hubAndSpoke]
  rfl

end Command

namespace FederationGate

variable {gate : FederationGate} {networkId : String} {g : TrustGraph}

theorem check_of_served (found : gate.lookup networkId = some g) {p : Policy}
    (served : gate.registry.forGraph? g = some p) (current home : ProviderId) :
    gate.check networkId current home = p.trustPath g current home := by
  simp [check, found, served]

/-- A network that no policy serves permits nothing, not even to stay at a provider. -/
theorem isPermitted_of_unserved (found : gate.lookup networkId = some g)
    (unserved : gate.registry.forGraph? g = none) (current home : ProviderId) :
    gate.isPermitted networkId current home = false := by
  simp [isPermitted, check, found, unserved, PathResult.unreachable]

/-- A run shows of the path between two providers what the gate says of them. -/
structure ShownBy (gate : FederationGate) (g : TrustGraph) (source target : String) (json : Bool)
    (o : RunOutcome) : Prop where
  served : ∀ p, gate.registry.forGraph? g = some p → o.exitCode = 0 ∧
    (json = true →
      o.output = (gate.check g.networkId ⟨source⟩ ⟨target⟩).toJson.pretty ++ "\n") ∧
    (json = false → o.output.toList.head? =
      some (if gate.isPermitted g.networkId ⟨source⟩ ⟨target⟩ then '✓' else '✗'))
  unserved : gate.registry.forGraph? g = none →
    o.failure = some (.network (.unknownTopology g.topology.name)) ∧ o.output = "" ∧
      ∀ current home, gate.isPermitted g.networkId current home = false

theorem shownBy_runPath {files : Files} {file : String}
    (loaded : TrustGraph.load files file = .ok g) (found : gate.lookup g.networkId = some g)
    (registered : gate.registry = .standard) (source target : String) (json : Bool) :
    gate.ShownBy g source target json (Command.runPath files file source target json) where
  served p served := by
    have standard : PolicyRegistry.standard.forGraph? g = some p := registered ▸ served
    rw [Command.runPath_of_served loaded standard, isPermitted, check_of_served found served]
    refine ⟨rfl, ?_, ?_⟩
    · rintro rfl
      exact Command.lines_singleton _
    · rintro rfl
      exact Command.head?_pathLine _
  unserved unserved := by
    have standard : PolicyRegistry.standard.forGraph? g = none := registered ▸ unserved
    rw [Command.runPath_of_unserved loaded standard]
    exact ⟨rfl, rfl, isPermitted_of_unserved found unserved⟩

end FederationGate

/-- There is no file without a name. -/
theorem FileSystem.read_nameless (f : FileSystem) (text : String) : f.read "" ≠ .ok text := by
  have refused : f.origin? "" = .error .notFound := by simp [origin?]
  intro h
  rw [read, refused] at h
  cases h

section Lines

variable {files : Files} {file : String} (nameless : ∀ text, files "" ≠ .ok text)
include nameless

theorem ne_empty_of_load {g : TrustGraph} (loaded : TrustGraph.load files file = .ok g) :
    file ≠ "" := by
  rintro rfl
  obtain ⟨⟨text, htext⟩, -⟩ := TrustGraph.exists_document_of_load loaded
  exact nameless text htext

theorem runArgs_path {g : TrustGraph} (loaded : TrustGraph.load files file = .ok g)
    {source target : String} {args : List String} {json : Bool}
    (h : Command.Spells args [file, source, target] json) :
    runArgs files ("path" :: args) = Command.runPath files file source target json := by
  rw [runArgs, Command.ofArgs?_path h (ne_empty_of_load nameless loaded)]
  rfl

/-- A file without a name is refused on the command line, and could not be loaded. -/
theorem exitCode_runArgs_validate {args : List String} (h : Command.Spells args [file] false) :
    (runArgs files ("validate" :: args)).exitCode = 0 ↔
      (Command.runValidate files file).exitCode = 0 := by
  by_cases named : file = ""
  · subst named
    rw [runArgs, Command.ofArgs?_validate_nameless h, Command.exitCode_runValidate]
    constructor
    · intro refused
      cases refused
    · rintro ⟨g, loaded, -⟩
      exact absurd rfl (ne_empty_of_load nameless loaded)
  · rw [runArgs, Command.ofArgs?_validate h named]
    rfl

end Lines

/-- On a network that is loaded the command line shows of each path what the gate over that network
says, and fails where no policy serves the topology and the gate denies all. The summary and the
check of the topology agree for every registry, and `validate` succeeds exactly for networks of
peers and for those around a provider whose role is written as that of a hub. -/
theorem verdicts_agree (files : Files) (nameless : ∀ text, files "" ≠ .ok text) :
    (∀ file g, TrustGraph.load files file = .ok g →
      ∃ snapshots, SnapshotSet.ofGraphs [g] = .ok snapshots ∧
        ∀ source target args json, Command.Spells args [file, source, target] json →
          (FederationGate.ofSnapshots snapshots .standard).ShownBy g source target json
            (runArgs files ("path" :: args))) ∧
      (∀ g registry, TrustGraph.SameFit g registry) ∧
      ∀ file args, Command.Spells args [file] false →
        ((runArgs files ("validate" :: args)).exitCode = 0 ↔
          ∃ g, TrustGraph.load files file = .ok g ∧ (g.topology = .peerToPeer ∨
            g.topology = .hubAndSpoke ∧
              ∃ id node, g.node? id = some node ∧ node.role.tag = "hub")) := by
  refine ⟨?_, ?_, ?_⟩
  · intro file g loaded
    have distinct : ([g].map (·.networkId)).Nodup := List.nodup_singleton _
    obtain ⟨snapshots, collected, hlookup⟩ := SnapshotSet.exists_ofGraphs distinct
    have found := (hlookup g.networkId g).2 ⟨List.mem_singleton_self g, rfl⟩
    refine ⟨snapshots, collected, ?_⟩
    intro source target args json spelled
    rw [runArgs_path nameless loaded spelled]
    exact FederationGate.shownBy_runPath loaded found rfl source target json
  · exact TrustGraph.sameFit
  · intro file args spelled
    rw [exitCode_runArgs_validate nameless spelled]
    exact Command.exitCode_validate_iff

/-- A spoke that is written like a flag, and another one, around a hub. -/
def dashed : NetworkDocument where
  networkId := "net"
  providers := .ofList [("-x", ⟨"https://x", "spoke", {}⟩), ("b", ⟨"https://b", "spoke", {}⟩),
    ("h", ⟨"https://h", "hub", {}⟩)]
  relationships := [⟨"-x", "h", .explicit⟩, ⟨"h", "b", .explicit⟩]

/-- A network whose topology no policy serves. -/
def mesh : NetworkDocument where
  networkId := "mesh"
  topology := .custom "mesh"
  providers := .ofList [("a", ⟨"https://a", "hub", {}⟩)]

/-- A folder with the files of both networks. -/
def networkEntries : List (String × FolderEntry) :=
  [("networks", .folder), ("networks/-net.json", .text dashed.toJsonText),
    ("networks/mesh.json", .text mesh.toJsonText)]

/-- The files of both networks, which are in the current folder. -/
def networkFiles : FileSystem where
  entries := .ofList networkEntries
  current := ["networks"]

theorem read_networkFiles {file text : String} (named : file.contains '\x00' = false)
    (nonempty : file ≠ "") (short : file.utf8ByteSize ≤ Path.maxSize)
    (relative : Path.isAbsolute file = false)
    (walk : networkFiles.walk ["networks"] (Path.parts file) = .ok [file, "networks"])
    (held : (FileSystem.key [file, "networks"], .text text) ∈ networkEntries) :
    networkFiles.read file = .ok text := by
  have start : networkFiles.origin? file = .ok ["networks"] := by
    rw [FileSystem.origin?_eq named nonempty short, relative]
    rfl
  exact FileSystem.read_of_walk start walk ((Table.get?_ofList (by decide)).2 held)

theorem read_dashed : networkFiles.read "-net.json" = .ok dashed.toJsonText := by
  have key_eq : FileSystem.key ["-net.json", "networks"] = "networks/-net.json" := by
    decide +kernel
  exact read_networkFiles (by simp) (by decide) (by decide) (by decide +kernel) (by decide +kernel)
    (by simp [key_eq, networkEntries])

theorem read_mesh : networkFiles.read "mesh.json" = .ok mesh.toJsonText := by
  have key_eq : FileSystem.key ["mesh.json", "networks"] = "networks/mesh.json" := by
    decide +kernel
  exact read_networkFiles (by simp) (by decide) (by decide) (by decide +kernel) (by decide +kernel)
    (by simp [key_eq, networkEntries])

def dashedGraph : TrustGraph :=
  dashed.normalized.toBuilder.freeze

def meshGraph : TrustGraph :=
  mesh.normalized.toBuilder.freeze

/-- What is printed of the path over the hub. -/
def dashedText : String :=
  "\x7b\n" ++
  "  \x22source\x22: \x22-x\x22,\n" ++
  "  \x22target\x22: \x22b\x22,\n" ++
  "  \x22path\x22: [\n    \x22-x\x22,\n    \x22h\x22,\n    \x22b\x22\n  ],\n" ++
  "  \x22reachable\x22: true,\n" ++
  "  \x22hop_count\x22: 2\n" ++
  "\x7d\n"

/-- Trust leads over the hub in one direction only. In a network that no policy serves a provider
is not even permitted to stay. -/
theorem verdicts_agree_dashed :
    (∀ text, networkFiles.read "" ≠ .ok text) ∧
      TrustGraph.load networkFiles.read "-net.json" = .ok dashedGraph ∧
      (runArgs networkFiles.read ["path", "--json", "--", "-net.json", "-x", "b"]).output =
        dashedText ∧
      (runArgs networkFiles.read ["path", "--", "-net.json", "b", "-x"]).output.toList.head? =
        some '✗' ∧
      (runArgs networkFiles.read ["validate", "--", "-net.json"]).exitCode = 0 ∧
      TrustGraph.load networkFiles.read "mesh.json" = .ok meshGraph ∧
      (runArgs networkFiles.read ["path", "mesh.json", "a", "a"]).failure =
        some (.network (.unknownTopology "mesh")) ∧
      ∃ s, SnapshotSet.ofGraphs [meshGraph] = .ok s ∧
        (FederationGate.ofSnapshots s .standard).isPermitted "mesh" ⟨"a"⟩ ⟨"a"⟩ = false := by
  have nameless := networkFiles.read_nameless
  have dashed_loaded : TrustGraph.load networkFiles.read "-net.json" = .ok dashedGraph :=
    TrustGraph.load_of_stored (by decide +kernel) read_dashed (by decide +kernel)
      (fun _ h => nomatch h)
  have mesh_loaded : TrustGraph.load networkFiles.read "mesh.json" = .ok meshGraph :=
    TrustGraph.load_of_stored (by decide +kernel) read_mesh (by decide +kernel)
      (fun _ h => nomatch h)
  have dashed_served : PolicyRegistry.standard.forGraph? dashedGraph = some HubAndSpoke.policy :=
    TrustGraph.forGraph?_standard _
  have mesh_unserved : PolicyRegistry.standard.forGraph? meshGraph = none :=
    TrustGraph.forGraph?_standard _
  obtain ⟨shown, -, valid_iff⟩ := verdicts_agree networkFiles.read nameless
  obtain ⟨snapshots, collected, shown_dashed⟩ := shown _ _ dashed_loaded
  obtain rfl := Except.ok.inj collected
  have there := ((shown_dashed "-x" "b" _ true (.flag (.rest _))).served _ dashed_served).2.1 rfl
  have back := ((shown_dashed "b" "-x" _ false (.rest _)).served _ dashed_served).2.2 rfl
  have relayed : ((FederationGate.ofSnapshots (SnapshotSet.empty.withGraph dashedGraph)
      .standard).check dashedGraph.networkId ⟨"-x"⟩ ⟨"b"⟩).toJson.pretty ++ "\n" = dashedText := by
    decide +kernel
  have denied : (FederationGate.ofSnapshots (SnapshotSet.empty.withGraph dashedGraph)
      .standard).isPermitted dashedGraph.networkId ⟨"b"⟩ ⟨"-x"⟩ = false := by decide +kernel
  rw [relayed] at there
  rw [denied] at back
  obtain ⟨snapshots, collected, shown_mesh⟩ := shown _ _ mesh_loaded
  have plain : Command.Spells ["mesh.json", "a", "a"] ["mesh.json", "a", "a"] false :=
    .value (by decide +kernel) (.value (by decide +kernel) (.value (by decide +kernel) .done))
  obtain ⟨unknown, -, denies⟩ := (shown_mesh "a" "a" _ false plain).unserved mesh_unserved
  have valid := (valid_iff "-net.json" _ (.rest _)).2
    ⟨dashedGraph, dashed_loaded, Or.inr ⟨rfl, ⟨"h"⟩, ⟨⟨"h"⟩, "https://h", .hub, {}⟩, by rfl, rfl⟩⟩
  exact ⟨nameless, dashed_loaded, there, back, valid, mesh_loaded, unknown, snapshots, collected,
    denies _ _⟩

end Federation
