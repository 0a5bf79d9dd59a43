import Federation.Main
import Federation.Network.Gate
import Federation.Proofs.DeclarationOrder
import Federation.Proofs.DocumentConversion
import Federation.Proofs.Permission
import Federation.Proofs.QueryAnswers
import Federation.Proofs.StoredDocument
import Federation.Proofs.MoreTrust
import Federation.Proofs.PolicyAgreement
import Federation.Proofs.SnapshotHistory
import Federation.Proofs.CommandLines
import Federation.Proofs.Verdicts
import Federation.Proofs.CycleDetection
import Federation.Proofs.NamedTopology
import Federation.Proofs.RegisteredPolicy
import Federation.Proofs.GateIsolation
import Federation.Proofs.Yaml.Places
import Federation.Proofs.Yaml.Plain
import Federation.Proofs.Yaml.Quoted
import Federation.Proofs.Yaml.Blocks
import Federation.Proofs.Yaml.Steps
import Federation.Proofs.Yaml.Marks
import Federation.Proofs.Yaml.Texts
import Federation.Proofs.Yaml.Outlines
import Federation.Proofs.Yaml.Nodes
import Federation.Proofs.DocumentOutline
import Federation.Proofs.StoredYaml
import Federation.Proofs.AdjacencyCopy
import Federation.Proofs.FirstViolation
import Federation.Proofs.BuilderRefusals
import Federation.Proofs.DiscoveryOrder
import Federation.Proofs.FirstRoute
import Federation.Proofs.ProviderOrder
import Federation.Proofs.ResultText
import Federation.Proofs.Presentations
import Federation.Proofs.RegistryVersion
import Federation.Proofs.SearchSteps
import Federation.Proofs.IdentifierComparison
