import FormFlow.Command
import FormFlow.Document.Pretty
import FormFlow.Document.Reader
import FormFlow.Expr.Resolve
import FormFlow.Flow.Export
import FormFlow.Flow.Navigation
import FormFlow.Flow.Outcome
import FormFlow.Flow.Pruning
import FormFlow.Flow.Report
import FormFlow.Flow.Validation
import FormFlow.Function.Standard
import FormFlow.Main
import FormFlow.Plan.Basic
import FormFlow.Plan.OuterName
import FormFlow.Route.Judged
import FormFlow.Proofs.Expr.References
import FormFlow.Proofs.Flow.Onward
import FormFlow.Proofs.Flow.Pruning
import FormFlow.Proofs.Route.Arrangement
import FormFlow.Proofs.Route.WellFormed
import FormFlow.Proofs.Plan.Dependencies
import FormFlow.Proofs.Route.Through
import FormFlow.Proofs.Digraph.SearchBack
import FormFlow.Proofs.Flow.Unreached
import FormFlow.Proofs.Plan.Addresses
import FormFlow.Proofs.Flow.Frontier
import FormFlow.Proofs.Flow.Liveness
import FormFlow.Proofs.Path.Distinct
import FormFlow.Proofs.Plan.Slots
import FormFlow.Proofs.Plan.Subtree
import FormFlow.Proofs.Flow.Vacancies
import FormFlow.Proofs.Flow.Checks
import FormFlow.Proofs.Flow.Refusals
import FormFlow.Proofs.Flow.Backward
import FormFlow.Proofs.Plan.Arena
import FormFlow.Proofs.Plan.OuterLocation
import FormFlow.Proofs.Plan.OuterDocument
import FormFlow.Proofs.Plan.Declarations
import FormFlow.Proofs.Plan.Image
import FormFlow.Proofs.Path.Rebuilding
import FormFlow.Proofs.Path.Written
import FormFlow.Proofs.Path.Preorder
import FormFlow.Proofs.Path.Lookup
import FormFlow.Proofs.Path.Ways
import FormFlow.Proofs.Path.Expansion
import FormFlow.Proofs.Path.Taking
import FormFlow.Proofs.Expr.Constants
import FormFlow.Proofs.Path.Undisturbed
import FormFlow.Proofs.Value.Dotted
import FormFlow.Proofs.Flow.Progress
import FormFlow.Proofs.Flow.Linear
import FormFlow.Proofs.Form.Nulls
import FormFlow.Proofs.Path.RoundTrip
import FormFlow.Proofs.Flow.Course
