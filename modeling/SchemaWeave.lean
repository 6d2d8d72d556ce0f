import SchemaWeave.Schema.Tree
import SchemaWeave.Schema.Extension
import SchemaWeave.Rewrite.Run
import SchemaWeave.Merge.Run
import SchemaWeave.Introspection.Query
import SchemaWeave.Plan.Composition
import SchemaWeave.Configuration.Reader
import SchemaWeave.Configuration.Plan
import SchemaWeave.Configuration.Shape
import SchemaWeave.Proofs.Distinct
import SchemaWeave.Proofs.Keyed.Basic
import SchemaWeave.Proofs.Parts
import SchemaWeave.Proofs.Violation
import SchemaWeave.Proofs.Contracts
import SchemaWeave.Proofs.Substitution
import SchemaWeave.Proofs.Keyed.Extension
import SchemaWeave.Proofs.Keyed.Rewrite
import SchemaWeave.Proofs.Keyed.Acquisition
import SchemaWeave.Proofs.Keyed.Names
import SchemaWeave.Proofs.Keyed.Pipeline
import SchemaWeave.Proofs.Extension.Conservative
import SchemaWeave.Proofs.Document.RoundTrip
import SchemaWeave.Proofs.Document.Roots
import SchemaWeave.Proofs.Document.Faults
import SchemaWeave.Proofs.Document.UnderNames
import SchemaWeave.Proofs.Document.Contracts
import SchemaWeave.Proofs.Json.RoundTrip
import SchemaWeave.Proofs.Introspection.Listing
import SchemaWeave.Proofs.Introspection.Answer
import SchemaWeave.Proofs.Introspection.RoundTrip
import SchemaWeave.Proofs.Merge.Combine
import SchemaWeave.Proofs.Merge.Gathering
import SchemaWeave.Proofs.Merge.Agreement
import SchemaWeave.Proofs.Merge.Types
import SchemaWeave.Proofs.Merge.Disputes
import SchemaWeave.Proofs.Merge.Output
import SchemaWeave.Proofs.Merge.Dispatch
import SchemaWeave.Proofs.Merge.Associativity
import SchemaWeave.Proofs.Merge.Origins
import SchemaWeave.Proofs.Composition.Origins
import SchemaWeave.Proofs.Rewrite.Removal
import SchemaWeave.Proofs.Rewrite.Breakage
import SchemaWeave.Proofs.Rewrite.RemoveType
import SchemaWeave.Proofs.Rewrite.Renaming
import SchemaWeave.Proofs.Rewrite.Equivariance
import SchemaWeave.Proofs.Rewrite.RenameType
import SchemaWeave.Proofs.Rewrite.RenameBreakage
import SchemaWeave.Proofs.Rewrite.RootNames
import SchemaWeave.Proofs.Rewrite.Independence
import SchemaWeave.Proofs.Merge.RootFields
import SchemaWeave.Proofs.Merge.Resolution
import SchemaWeave.Proofs.Merge.Order
import SchemaWeave.Proofs.Merge.Registry
import SchemaWeave.Proofs.Merge.Confinement
import SchemaWeave.Proofs.Merge.Single
import SchemaWeave.Proofs.Merge.Directives
import SchemaWeave.Proofs.Merge.FirstWins
import SchemaWeave.Proofs.Merge.Aggregation
import SchemaWeave.Proofs.Rewrite.Cascade
import SchemaWeave.Proofs.Rewrite.RenameRemoval
import SchemaWeave.Proofs.Rewrite.FormerName
import SchemaWeave.Proofs.Rewrite.RemovalOrder
import SchemaWeave.Proofs.Rewrite.RootCollisions
import SchemaWeave.Proofs.WellFormed
import SchemaWeave.Proofs.Rewrite.FieldRules
import SchemaWeave.Proofs.Extension.Commuting
import SchemaWeave.Proofs.Extension.Appending
import SchemaWeave.Proofs.Extension.Folding
import SchemaWeave.Proofs.Document.Written
import SchemaWeave.Proofs.Document.Given
import SchemaWeave.Proofs.Document.GivenOnce
import SchemaWeave.Proofs.Document.SchemaNodes
import SchemaWeave.Proofs.Introspection.Repetition
import SchemaWeave.Proofs.Plan.Request
import SchemaWeave.Proofs.Plan.Accepted
import SchemaWeave.Proofs.Composition.Failures
import SchemaWeave.Proofs.Configuration.Replay
import SchemaWeave.Proofs.Introspection.Default
import SchemaWeave.Proofs.Covariance
