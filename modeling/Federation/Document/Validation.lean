import Federation.Document.Basic
import Federation.Text.Quoted

/-!
# Validating documents

A document is sound when its network and all its providers are named, every provider has an issuer
and a role, and relationships hold between providers of the document. The first violation is
reported: the network's name comes first, then providers by ascending identifier, then
relationships by position.
-/

namespace Federation

/-- A violation in a document. -/
inductive ValidationError where
  | missingField (field : String)
  | missingReference (id context : String)
  | invalidValue (field value reason : String)
deriving DecidableEq, Inhabited

/-- The wording of a violation. -/
def ValidationError.message : ValidationError → String
  | missingField field => "Missing field: " ++ field
  | missingReference id context => "Missing reference: " ++ id ++ " in " ++ context
  | invalidValue field value reason =>
    "Invalid value: " ++ field ++ " = " ++ value ++ " (" ++ reason ++ ")"

/-- The violation as it is shown in diagnostics. -/
def ValidationError.describe : ValidationError → String
  | missingField field => "MissingField \x7b field: " ++ Text.quoted field ++ " \x7d"
  | missingReference id context =>
    "MissingReference \x7b id: " ++ Text.quoted id ++ ", context: " ++ Text.quoted context ++
      " \x7d"
  | invalidValue field value reason =>
    "InvalidValue \x7b field: " ++ Text.quoted field ++ ", value: " ++ Text.quoted value ++
      ", reason: " ++ Text.quoted reason ++ " \x7d"

namespace NetworkDocument

/-- The violation in the description of a provider, if there is one. -/
def providerViolation? (id : String) (entry : ProviderEntry) : Option ValidationError :=
  if Text.isBlank id then
    some (.invalidValue "providers" id "provider ID must not be empty")
  else if Text.isBlank entry.issuer then
    some (.missingField ("providers." ++ id ++ ".issuer"))
  else if Text.isBlank entry.role then
    some (.missingField ("providers." ++ id ++ ".role"))
  else none

/-- The violation in the relationship at a position, if there is one. -/
def relationshipViolation? (doc : NetworkDocument) (entry : TrustEntry) (position : Nat) :
    Option ValidationError :=
  let context := "trust_relationships[" ++ toString position ++ "]"
  if !doc.providers.contains entry.source then some (.missingReference entry.source context)
  else if !doc.providers.contains entry.target then
    some (.missingReference entry.target context)
  else none

/-- The first violation, if there is one. -/
def violation? (doc : NetworkDocument) : Option ValidationError :=
  if Text.isBlank doc.networkId then
    some (.missingField "network_id")
  else
    (doc.providers.entries.findSome? fun e => providerViolation? e.1 e.2).or
      (doc.relationships.zipIdx.findSome? fun e => doc.relationshipViolation? e.1 e.2)

/-- Checks that a document is sound. -/
def validate (doc : NetworkDocument) : Except ValidationError Unit :=
  match doc.violation? with
  | some e => .error e
  | none => .ok ()

end NetworkDocument

end Federation
