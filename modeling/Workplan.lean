import Workplan.File.Tree
import Workplan.Main
import Workplan.Proofs.Precedence.Arrange
import Workplan.Proofs.Precedence.Search
import Workplan.Proofs.Precedence.Cycle
import Workplan.Proofs.Plan.Sort
import Workplan.Proofs.Plan.Emission
import Workplan.Proofs.Rule.Gate
import Workplan.Proofs.Plan.Execution
import Workplan.Proofs.Plan.Wiring
import Workplan.Proofs.Plan.Prescription
import Workplan.Proofs.Plan.Verdict
import Workplan.Proofs.Plan.Failure
import Workplan.Proofs.Rule.Reading
import Workplan.Proofs.Rule.Spelling
import Workplan.Proofs.Rule.Levels
import Workplan.Proofs.Rule.Grammar
import Workplan.Proofs.Rule.Printing
import Workplan.Proofs.Rule.Rank
import Workplan.Proofs.Rule.RoundTrip
import Workplan.Proofs.Rule.Follow
import Workplan.Proofs.Rule.Acceptance
import Workplan.Proofs.Rule.Nesting
import Workplan.Proofs.Rule.Reads
import Workplan.Proofs.Rule.Recursion
import Workplan.Proofs.Rule.Wrapping
import Workplan.Proofs.Rule.Stopping
import Workplan.Proofs.Rule.Context
import Workplan.Proofs.Catalog.MapRules
import Workplan.Proofs.Plan.Outline
import Workplan.Proofs.Plan.Decisions
import Workplan.Proofs.Plan.Independence
import Workplan.Proofs.Plan.Admission
import Workplan.Proofs.Catalog.Validity
import Workplan.Proofs.Plan.Relevance
import Workplan.Proofs.Plan.Insertion
import Workplan.Proofs.Plan.Reordering
import Workplan.Proofs.Catalog.Overlay
import Workplan.Proofs.Plan.SelfSupply
import Workplan.Proofs.Plan.Stages
import Workplan.Proofs.Plan.WorkflowOrder
import Workplan.Proofs.Document.Json
import Workplan.Proofs.Catalog.Codec
import Workplan.Proofs.Catalog.Regrouping
import Workplan.Proofs.Rule.Quotation
import Workplan.Proofs.Rule.Display
import Workplan.Proofs.Command.Prediction
import Workplan.Proofs.Plan.Diagnostics
import Workplan.Proofs.Rule.Interchange
import Workplan.Proofs.Rule.Chains
import Workplan.Proofs.Path.Below
import Workplan.Proofs.Rule.Files
import Workplan.Proofs.Text.Slug
import Workplan.Proofs.Rule.Unknown
