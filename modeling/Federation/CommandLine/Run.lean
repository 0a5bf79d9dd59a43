import Federation.CommandLine.Command
import Federation.Network.Report
import Federation.PathResult.Json

/-!
# Running commands

A command reads the file of its network, writes lines, and may fail after some of them: with code 2
where the command line is no command, and with code 1 and a diagnostic where the network cannot be
used.

It is assumed that logging is turned off. Log messages would stand among the lines of the output.
-/

namespace Federation

/-- How a run ended early. -/
inductive RunFailure where
  | usage
  | network (error : NetworkError)
deriving DecidableEq, Inhabited

/-- What a run wrote, and how it failed if it did. -/
structure RunOutcome where
  output : String
  failure : Option RunFailure := none
deriving DecidableEq, Inhabited

namespace RunFailure

/-- The exit code of a run that failed. -/
def exitCode : RunFailure → Nat
  | usage => 2
  | network _ => 1

/-- What a failed run writes as a diagnostic, where its wording is fixed. -/
def diagnostic? : RunFailure → Option String
  | usage => none
  | network error => error.describe?.map fun text => "Error: " ++ text ++ "\n"

end RunFailure

namespace RunOutcome

/-- The exit code of a run; zero if it did not fail. -/
def exitCode (o : RunOutcome) : Nat :=
  o.failure.elim 0 RunFailure.exitCode

/-- What a run writes as a diagnostic, where its wording is fixed; nothing if it did not fail. -/
def diagnostic? (o : RunOutcome) : Option String :=
  o.failure.elim (some "") RunFailure.diagnostic?

end RunOutcome

namespace Command

/-- Lines of output. -/
def lines (ls : List String) : String :=
  String.join (ls.map (· ++ "\n"))

/-- The lines on a network. -/
def summaryLines (s : NetworkSummary) : List String :=
  ["  " ++ s.networkId ++ " (" ++ s.topology ++ "): " ++ toString s.providerCount ++
    " providers, " ++ toString s.edgeCount ++ " trust edges"] ++
  (match s.version with
    | some version => ["  registry version: " ++ version]
    | none => []) ++
  (if s.hubs.isEmpty then [] else ["  hubs: " ++ ", ".intercalate (s.hubs.map (·.text))]) ++
  (if s.hasCycle then ["  note: trust graph contains a cycle"] else [])

/-- The line on a provider. -/
def listingLine (p : ProviderListing) : String :=
  let trusts := if p.trusts.isEmpty then "-" else ", ".intercalate (p.trusts.map (·.text))
  "  " ++ p.id.text ++ " [" ++ p.role ++ "] " ++ p.issuer ++ " -> " ++ trusts

/-- The line on a path. -/
def pathLine (r : PathResult) : String :=
  let ends := r.source.text ++ " -> " ++ r.target.text
  if r.reachable then
    "✓ " ++ ends ++ ": " ++ toString r.hopCount ++ " hop(s) via " ++
      " -> ".intercalate (r.path.map (·.text))
  else "✗ " ++ ends ++ ": no trust path (deny)"

/-- Checks a network and tells what it is. -/
def runValidate (files : Files) (file : String) : RunOutcome :=
  let title := "Validating network: " ++ file
  match TrustGraph.load files file with
  | .error e => ⟨lines [title], some (.network e)⟩
  | .ok g =>
    let summary := title :: summaryLines (g.summary .standard)
    match g.checkTopology .standard with
    | .error e => ⟨lines summary, some (.network e)⟩
    | .ok () => ⟨lines (summary ++ ["✓ Network is valid"]), none⟩

/-- Lists the providers of a network. -/
def runProviders (files : Files) (file : String) : RunOutcome :=
  match TrustGraph.load files file with
  | .error e => ⟨"", some (.network e)⟩
  | .ok g =>
    match g.providerList with
    | [] => ⟨lines ["No providers found in network"], none⟩
    | ps => ⟨lines (("Providers in " ++ g.networkId ++ ":") :: ps.map listingLine), none⟩

/-- The trust path between two providers of the network in a file. -/
def findPath (files : Files) (file : String) (source target : ProviderId) :
    Except NetworkError PathResult := do
  let g ← TrustGraph.load files file
  return (← g.requirePolicy .standard).trustPath g source target

/-- Shows the trust path between two providers. -/
def runPath (files : Files) (file source target : String) (json : Bool) : RunOutcome :=
  match findPath files file ⟨source⟩ ⟨target⟩ with
  | .error e => ⟨"", some (.network e)⟩
  | .ok r => ⟨lines [if json then r.toJson.pretty else pathLine r], none⟩

/-- Runs a command. -/
def run (files : Files) : Command → RunOutcome
  | validate file => runValidate files file
  | providers file => runProviders files file
  | path file source target json => runPath files file source target json

end Command

/-- Runs a command line. -/
def runArgs (files : Files) (args : List String) : RunOutcome :=
  match Command.ofArgs? args with
  | some command => command.run files
  | none => ⟨"", some .usage⟩

end Federation
