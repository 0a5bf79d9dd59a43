import Federation.Calendar.Instant
import Federation.Trust

/-!
# Network documents

A document describes one federation network as it stands in a registry: its providers by
identifier and the trust relationships between them, both as they are written.
-/

namespace Federation

/-- The description of a provider. -/
structure ProviderEntry where
  issuer : String
  role : String
  metadata : Table String String := {}
deriving DecidableEq, Inhabited

/-- The description of a trust relationship. -/
structure TrustEntry where
  source : String
  target : String
  level : TrustLevel := .explicit
deriving DecidableEq, Inhabited

/-- The description of a network. -/
structure NetworkDocument where
  networkId : String
  topology : Topology := .hubAndSpoke
  registryVersion : Option Instant := none
  metadata : Table String String := {}
  providers : Table String ProviderEntry := {}
  relationships : List TrustEntry := []
deriving DecidableEq, Inhabited

end Federation
