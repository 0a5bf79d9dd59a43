import Federation.Calendar.Text
import Federation.Document.Basic
import Federation.Json.Printer
import Federation.Json.Shape

/-!
# Documents in JSON

Records are objects whose members may come in any order and among unknown ones, or arrays of their
fields in order. Absent versions and empty metadata are left out in writing; all other fields are
written, in the order of the record.
-/

namespace Federation

open Federation.Json

namespace TrustLevel

/-- Reads the name of a level. -/
def ofName (name : String) : Read TrustLevel :=
  match ofWord? name with
  | some level => .ok level
  | none => .error (.unknownVariant name [word explicit, word transitive])

/-- Reads what stands beside the name of a level in an object: nothing. -/
def readNothing : Json → Read Unit
  | .null => .ok ()
  | j => .error (j.mismatch "unit")

/-- Reads a level: its name, or an object with its name and nothing. -/
def ofJson : Json → Read TrustLevel
  | .text (some name) => ofName name
  | .object ((name, j) :: rest) => do
    let level ← ofName (← readName name)
    readNothing j
    if rest.isEmpty then return level else throw .malformed
  | _ => .error .malformed

def toJson (level : TrustLevel) : Json :=
  .str level.word

end TrustLevel

namespace Topology

def ofJson (j : Json) : Read Topology :=
  ofName <$> readString j

def toJson (t : Topology) : Json :=
  .str t.name

end Topology

namespace Instant

/-- Reads a date and a time. -/
def ofJson (j : Json) : Read Instant := do
  match read? (← readText "an RFC 3339 formatted date and time string" j) with
  | some t => return t
  | none => throw .unreadableDate

/-- A date and a time with the letter `Z` for universal time. -/
def toJson (t : Instant) : Json :=
  .str (t.write "Z")

end Instant

/-- Reads metadata. -/
def readMetadata : Json → Read (Table String String) :=
  readTable readString

/-- A table of values, by ascending key. -/
def tableToJson {α : Type} (toJson : α → Json) (t : Table String α) : Json :=
  .record (t.entries.map fun e => (e.1, toJson e.2))

/-- The metadata member of an object; none for empty metadata. -/
def metadataMember (t : Table String String) : List (String × Json) :=
  if t.isEmpty then [] else [("metadata", tableToJson .str t)]

namespace ProviderEntry

def shape : RecordShape := ⟨"ProviderDef", 3⟩

/-- The fields read so far. -/
structure Draft where
  issuer : Option String := none
  role : Option String := none
  metadata : Option (Table String String) := none

/-- Reads one more member. -/
def Draft.read (d : Draft) (m : Option String × Json) : Read Draft := do
  match ← readName m.1 with
  | "issuer" => return { d with issuer := ← readField "issuer" d.issuer readString m.2 }
  | "role" => return { d with role := ← readField "role" d.role readString m.2 }
  | "metadata" => return { d with metadata := ← readField "metadata" d.metadata readMetadata m.2 }
  | _ => skip m.2; return d

/-- The entry, once all members are read. -/
def Draft.finish (d : Draft) : Read ProviderEntry := do
  return ⟨← required "issuer" d.issuer, ← required "role" d.role, d.metadata.getD {}⟩

def ofMembers (members : List (Option String × Json)) : Read ProviderEntry := do
  (← members.foldlM Draft.read {}).finish

def ofItems (items : List Json) : Read ProviderEntry := do
  let (issuer, items) ← takeItem shape 0 readString items
  let (role, items) ← takeItem shape 1 readString items
  let (metadata, items) ← takeItemD {} readMetadata items
  endItems items
  return ⟨issuer, role, metadata⟩

def ofJson : Json → Read ProviderEntry :=
  readRecord shape ofMembers ofItems

def toJson (entry : ProviderEntry) : Json :=
  .record ([("issuer", .str entry.issuer), ("role", .str entry.role)] ++
    metadataMember entry.metadata)

end ProviderEntry

namespace TrustEntry

def shape : RecordShape := ⟨"TrustRelationshipDef", 3⟩

/-- The fields read so far. -/
structure Draft where
  source : Option String := none
  target : Option String := none
  level : Option TrustLevel := none

/-- Reads one more member. -/
def Draft.read (d : Draft) (m : Option String × Json) : Read Draft := do
  match ← readName m.1 with
  | "from" => return { d with source := ← readField "from" d.source readString m.2 }
  | "to" => return { d with target := ← readField "to" d.target readString m.2 }
  | "level" => return { d with level := ← readField "level" d.level TrustLevel.ofJson m.2 }
  | _ => skip m.2; return d

/-- The entry, once all members are read. -/
def Draft.finish (d : Draft) : Read TrustEntry := do
  return ⟨← required "from" d.source, ← required "to" d.target, d.level.getD .explicit⟩

def ofMembers (members : List (Option String × Json)) : Read TrustEntry := do
  (← members.foldlM Draft.read {}).finish

def ofItems (items : List Json) : Read TrustEntry := do
  let (source, items) ← takeItem shape 0 readString items
  let (target, items) ← takeItem shape 1 readString items
  let (level, items) ← takeItemD .explicit TrustLevel.ofJson items
  endItems items
  return ⟨source, target, level⟩

def ofJson : Json → Read TrustEntry :=
  readRecord shape ofMembers ofItems

def toJson (entry : TrustEntry) : Json :=
  .record [("from", .str entry.source), ("to", .str entry.target),
    ("level", entry.level.toJson)]

end TrustEntry

namespace NetworkDocument

def shape : RecordShape := ⟨"NetworkConfig", 6⟩

def readProviders : Json → Read (Table String ProviderEntry) :=
  readTable ProviderEntry.ofJson

def readRelationships : Json → Read (List TrustEntry) :=
  readList TrustEntry.ofJson

/-- The fields read so far. -/
structure Draft where
  networkId : Option String := none
  topology : Option Topology := none
  registryVersion : Option (Option Instant) := none
  metadata : Option (Table String String) := none
  providers : Option (Table String ProviderEntry) := none
  relationships : Option (List TrustEntry) := none

/-- Reads one more member. -/
def Draft.read (d : Draft) (m : Option String × Json) : Read Draft := do
  match ← readName m.1 with
  | "network_id" => return { d with networkId := ← readField "network_id" d.networkId readString m.2 }
  | "topology_type" =>
    return { d with topology := ← readField "topology_type" d.topology Topology.ofJson m.2 }
  | "registry_version" =>
    return { d with
      registryVersion :=
        ← readField "registry_version" d.registryVersion (readOption Instant.ofJson) m.2 }
  | "metadata" => return { d with metadata := ← readField "metadata" d.metadata readMetadata m.2 }
  | "providers" =>
    return { d with providers := ← readField "providers" d.providers readProviders m.2 }
  | "trust_relationships" =>
    return { d with
      relationships :=
        ← readField "trust_relationships" d.relationships readRelationships m.2 }
  | _ => skip m.2; return d

/-- The document, once all members are read. -/
def Draft.finish (d : Draft) : Read NetworkDocument := do
  return {
    networkId := ← required "network_id" d.networkId
    topology := d.topology.getD .hubAndSpoke
    registryVersion := d.registryVersion.getD none
    metadata := d.metadata.getD {}
    providers := d.providers.getD {}
    relationships := d.relationships.getD [] }

def ofMembers (members : List (Option String × Json)) : Read NetworkDocument := do
  (← members.foldlM Draft.read {}).finish

def ofItems (items : List Json) : Read NetworkDocument := do
  let (networkId, items) ← takeItem shape 0 readString items
  let (topology, items) ← takeItemD .hubAndSpoke Topology.ofJson items
  let (registryVersion, items) ← takeItemD none (readOption Instant.ofJson) items
  let (metadata, items) ← takeItemD {} readMetadata items
  let (providers, items) ← takeItemD {} readProviders items
  let (relationships, items) ← takeItemD [] readRelationships items
  endItems items
  return { networkId, topology, registryVersion, metadata, providers, relationships }

/-- Reads a document from a tree. -/
def ofJson : Json → Read NetworkDocument :=
  readRecord shape ofMembers ofItems

/-- The document as a tree. -/
def toJson (doc : NetworkDocument) : Json :=
  .record (
    [("network_id", .str doc.networkId), ("topology_type", doc.topology.toJson)] ++
    (match doc.registryVersion with
      | some t => [("registry_version", t.toJson)]
      | none => []) ++
    metadataMember doc.metadata ++
    [("providers", tableToJson ProviderEntry.toJson doc.providers),
      ("trust_relationships", .array (doc.relationships.map TrustEntry.toJson))])

/-- Reads the JSON text of a document. -/
def ofJsonText (s : String) : Read NetworkDocument :=
  readWhole ofJson s

/-- The JSON text of a document, in lines. -/
def toJsonText (doc : NetworkDocument) : String :=
  doc.toJson.pretty

end NetworkDocument

end Federation
