import Federation.Document.Store

/-!
# Network errors

What can go wrong with a whole network: its file cannot be loaded, it shares its name with another
network, no policy serves its topology, or its structure is not that of its topology.
-/

namespace Federation

/-- Why a network cannot be used. -/
inductive NetworkError where
  | notLoaded (path : String) (cause : DocumentError)
  | duplicate (networkId : String)
  | unknownTopology (name : String)
  | unfitting (networkId topology : String)
deriving DecidableEq, Inhabited

namespace NetworkError

/-- What is said of a network that does not have the structure of its topology. -/
def unfittingText (networkId topology : String) : String :=
  "Network '" ++ networkId ++ "' does not satisfy the " ++ topology ++ " topology"

/-- The wording of an error, where it is fixed. -/
def message? : NetworkError → Option String
  | notLoaded path cause =>
    cause.message?.map fun text => "Failed to load network file " ++ path ++ ": " ++ text
  | duplicate networkId => some ("Duplicate network: " ++ networkId)
  | unknownTopology name => some ("No policy registered for topology: " ++ name)
  | unfitting networkId topology =>
    some ("Invalid input: " ++ unfittingText networkId topology)

/-- The error as it is shown in diagnostics, where its wording is fixed. -/
def describe? : NetworkError → Option String
  | notLoaded path cause =>
    cause.describe?.map fun text =>
      "NetworkLoad \x7b path: " ++ Text.quoted path ++ ", source: " ++ text ++ " \x7d"
  | duplicate networkId => some ("DuplicateNetwork(" ++ Text.quoted networkId ++ ")")
  | unknownTopology name => some ("UnknownTopology(" ++ Text.quoted name ++ ")")
  | unfitting networkId topology =>
    some ("InvalidInput(" ++ Text.quoted (unfittingText networkId topology) ++ ")")

end NetworkError

end Federation
