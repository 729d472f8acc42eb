import Readiness.Graph.Document
import Readiness.Graph.Text
import Readiness.Manifest
import Readiness.Proofs.Cache.Invalidation
import Readiness.Proofs.Const.Bounds
import Readiness.Proofs.Escape.Conservative
import Readiness.Proofs.Escape.Reasons
import Readiness.Proofs.Flow.Least
import Readiness.Proofs.Folding.Draining
import Readiness.Proofs.Gate.Improvement
import Readiness.Proofs.Inference.Memory
import Readiness.Proofs.Lifetime.Balanced
import Readiness.Proofs.Lifetime.Ending
import Readiness.Proofs.Lowering.Cleanup
import Readiness.Proofs.Lowering.LocalNames
import Readiness.Proofs.Lowering.Nesting
import Readiness.Proofs.Lowering.Sizes
import Readiness.Proofs.Lowering.UnboundedLoops
import Readiness.Proofs.Report.Comparing
import Readiness.Proofs.Report.Faults
import Readiness.Proofs.Report.Histories
import Readiness.Proofs.Scan.Binding
import Readiness.Proofs.Scoring.Completeness
import Readiness.Proofs.Specialisation.Exploration
import Readiness.Proofs.Types.Expansion
import Readiness.Report.Listing
import Readiness.Report.Suggestions
import Readiness.Report.Text
import Readiness.Source.Document
