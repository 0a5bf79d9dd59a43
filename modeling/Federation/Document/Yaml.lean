import Federation.Calendar.Text
import Federation.Document.Basic
import Federation.Yaml.Printer
import Federation.Yaml.Shape

/-!
# Documents in YAML

Records are mappings whose members may come in any order and among unknown ones. A level is a word,
or a tag without a value. Absent versions and empty metadata are left out in writing; all other
fields are written, in the order of the record.
-/

namespace Federation

open Federation.Yaml

namespace TrustLevel

/-- Reads a level: a word, or a tag without a value. -/
def ofYaml (node : Node) : Yaml.Read TrustLevel := do
  match ← resolve node with
  | .scalar tag plain text =>
    match tag.bind Tag.word? with
    | none => (ofWord? text).getDM failure
    | some word =>
      if plain && (text.isEmpty || isNullWord text) then (ofWord? word).getDM failure
      else failure
  | _ => failure

def toYaml (level : TrustLevel) : Outline :=
  .text level.word

end TrustLevel

namespace Instant

/-- Reads a date and a time. -/
def ofYaml (node : Node) : Yaml.Read Instant := do
  (read? (← readText node)).getDM failure

/-- A date and a time with the letter `Z` for universal time. -/
def toYaml (t : Instant) : Outline :=
  .text (t.write "Z")

end Instant

/-- A table of values, by ascending key. -/
def tableToYaml {α : Type} (toYaml : α → Outline) (t : Table String α) : Outline :=
  .record (t.entries.map fun e => (e.1, toYaml e.2))

/-- The metadata member of a record; none for empty metadata. -/
def metadataEntry (t : Table String String) : List (String × Outline) :=
  if t.isEmpty then [] else [("metadata", tableToYaml .text t)]

namespace ProviderEntry

def ofYaml (node : Node) : Yaml.Read ProviderEntry := do
  let members ← readMembers ["issuer", "role", "metadata"] node
  return {
    issuer := ← members.required "issuer" readText
    role := ← members.required "role" readText
    metadata := ← members.optional "metadata" (readTable readText) {} }

def toYaml (entry : ProviderEntry) : Outline :=
  .record ([("issuer", .text entry.issuer), ("role", .text entry.role)] ++
    metadataEntry entry.metadata)

end ProviderEntry

namespace TrustEntry

def ofYaml (node : Node) : Yaml.Read TrustEntry := do
  let members ← readMembers ["from", "to", "level"] node
  return {
    source := ← members.required "from" readText
    target := ← members.required "to" readText
    level := ← members.optional "level" TrustLevel.ofYaml .explicit }

def toYaml (entry : TrustEntry) : Outline :=
  .record [("from", .text entry.source), ("to", .text entry.target),
    ("level", entry.level.toYaml)]

end TrustEntry

namespace NetworkDocument

/-- The names of the fields in the order of the record. -/
def fieldNames : List String :=
  ["network_id", "topology_type", "registry_version", "metadata", "providers",
    "trust_relationships"]

/-- Reads a document from a node. -/
def ofYaml (node : Node) : Yaml.Read NetworkDocument := do
  let members ← readMembers fieldNames node
  return {
    networkId := ← members.required "network_id" readText
    topology :=
      ← members.optional "topology_type" (Topology.ofName <$> readText ·) .hubAndSpoke
    registryVersion := ← members.optional "registry_version" (readOption Instant.ofYaml) none
    metadata := ← members.optional "metadata" (readTable readText) {}
    providers := ← members.optional "providers" (readTable ProviderEntry.ofYaml) {}
    relationships := ← members.optional "trust_relationships" (readList TrustEntry.ofYaml) [] }

/-- The document as an outline. -/
def toYaml (doc : NetworkDocument) : Outline :=
  .record (
    [("network_id", .text doc.networkId), ("topology_type", .text doc.topology.name)] ++
    (match doc.registryVersion with
      | some t => [("registry_version", t.toYaml)]
      | none => []) ++
    metadataEntry doc.metadata ++
    [("providers", tableToYaml ProviderEntry.toYaml doc.providers),
      ("trust_relationships", .list (doc.relationships.map TrustEntry.toYaml))])

/-- Reads the YAML text of a document. -/
def ofYamlText? (s : String) : Option NetworkDocument := do
  (← Document.ofText? s).read? ofYaml

/-- The YAML text of a document. -/
def toYamlText (doc : NetworkDocument) : String :=
  doc.toYaml.write

end NetworkDocument

end Federation
