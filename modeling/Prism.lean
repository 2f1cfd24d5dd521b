import Prism.Foundation.Codec
import Prism.Foundation.Confinement
import Prism.Foundation.Glob
import Prism.Foundation.Json
import Prism.Foundation.JsonReader
import Prism.Foundation.JsonRoundTrip
import Prism.Foundation.JsonSize
import Prism.Foundation.Keyset
import Prism.Foundation.Lines
import Prism.Foundation.Procedure
import Prism.Foundation.Python
import Prism.Foundation.PythonPrograms
import Prism.Foundation.Regex
import Prism.Foundation.Runs
import Prism.Foundation.Succession
import Prism.Foundation.Table
import Prism.Foundation.Text
import Prism.Foundation.Transition
import Prism.Foundation.UnifiedDiff
import Prism.Foundation.Unwinding
import Prism.Foundation.Worklist
import Prism.Model.Access
import Prism.Model.Analysis
import Prism.Model.Analyzer
import Prism.Model.Auth
import Prism.Model.Candidates
import Prism.Model.Connection
import Prism.Model.ContentSafety
import Prism.Model.ContextPlan
import Prism.Model.ContextSelection
import Prism.Model.Database
import Prism.Model.Deployment
import Prism.Model.Documents
import Prism.Model.Evidence
import Prism.Model.Exception
import Prism.Model.GitHub
import Prism.Model.Jobs
import Prism.Model.Listings
import Prism.Model.Metering
import Prism.Model.OutputSchema
import Prism.Model.ParserProcess
import Prism.Model.Patch
import Prism.Model.PathObservations
import Prism.Model.Pipeline
import Prism.Model.PullRequest
import Prism.Model.Reads
import Prism.Model.Retrieval
import Prism.Model.Review
import Prism.Model.ReviewPayload
import Prism.Model.ReviewPolicy
import Prism.Model.ReviewVerification
import Prism.Model.Rules
import Prism.Model.Semantics
import Prism.Model.Standards
import Prism.Model.StandardsContext
import Prism.Model.Supplement
import Prism.Model.SyntaxTree
import Prism.Model.System
import Prism.Model.Webhook
import Prism.Model.Workspace
import Prism.Verification.Access.Correctness
import Prism.Verification.Admission.Correctness
import Prism.Verification.Analysis.Equations
import Prism.Verification.Analysis.Semantics
import Prism.Verification.Analysis.Trace
import Prism.Verification.Analyzer.Accounting
import Prism.Verification.Analyzer.Equations
import Prism.Verification.Analyzer.Nesting
import Prism.Verification.Answer.Correctness
import Prism.Verification.Answer.Echo
import Prism.Verification.Answer.Equations
import Prism.Verification.Answer.Promotion
import Prism.Verification.Answer.Quote
import Prism.Verification.Auth.Correctness
import Prism.Verification.Auth.Equations
import Prism.Verification.Auth.Trace
import Prism.Verification.Candidates.Correctness
import Prism.Verification.Connection.Equations
import Prism.Verification.Connection.Semantics
import Prism.Verification.Connection.Trace
import Prism.Verification.ContentSafety.Correctness
import Prism.Verification.Context.Correctness
import Prism.Verification.Context.Equations
import Prism.Verification.Context.Plan
import Prism.Verification.Context.Ranking
import Prism.Verification.Context.Trace
import Prism.Verification.Context.Windows
import Prism.Verification.Deployment.Correctness
import Prism.Verification.Deployment.Equations
import Prism.Verification.Deployment.Trace
import Prism.Verification.Documents.Correctness
import Prism.Verification.Documents.Equations
import Prism.Verification.Documents.Trace
import Prism.Verification.Evidence.Correctness
import Prism.Verification.Evidence.Equations
import Prism.Verification.Evidence.Lines
import Prism.Verification.Evidence.Patch
import Prism.Verification.GitHub.Equations
import Prism.Verification.Jobs.Correctness
import Prism.Verification.Jobs.Equations
import Prism.Verification.Lifecycle.Audit
import Prism.Verification.Lifecycle.Correctness
import Prism.Verification.Lifecycle.Refinement
import Prism.Verification.Lifecycle.Semantics
import Prism.Verification.Lifecycle.Trace
import Prism.Verification.Listings.Findings
import Prism.Verification.Listings.Pulls
import Prism.Verification.Listings.Snapshot
import Prism.Verification.Payload.Correctness
import Prism.Verification.Pipeline.Analysis
import Prism.Verification.Pipeline.ChangedLines
import Prism.Verification.Pipeline.Coverage
import Prism.Verification.Pipeline.Reading
import Prism.Verification.Projection.Correctness
import Prism.Verification.Projection.Equations
import Prism.Verification.Retrieval.Correctness
import Prism.Verification.Review.Equations
import Prism.Verification.Review.Metering
import Prism.Verification.Review.Quota
import Prism.Verification.Review.Semantics
import Prism.Verification.Review.Trace
import Prism.Verification.Semantics.Correctness
import Prism.Verification.Semantics.Refinement
import Prism.Verification.Standards.Correctness
import Prism.Verification.Standards.Fences
import Prism.Verification.Standards.Indexing
import Prism.Verification.Standards.Retrieval
import Prism.Verification.Supplement.Correctness
import Prism.Verification.Supplement.Equations
import Prism.Verification.Sync.Cache
import Prism.Verification.Sync.Conditional
import Prism.Verification.Sync.Equations
import Prism.Verification.Sync.Execution
import Prism.Verification.Sync.Freshness
import Prism.Verification.Sync.Refetch
import Prism.Verification.Sync.Semantics
import Prism.Verification.Sync.Views
import Prism.Verification.System.Equations
import Prism.Verification.Tenancy.Correctness
import Prism.Verification.Tenancy.Equations
import Prism.Verification.Tenancy.Isolation
import Prism.Verification.Webhook.Busy
import Prism.Verification.Webhook.Equations
import Prism.Verification.Webhook.Semantics
import Prism.Verification.Webhook.Trace
import Prism.Verification.Workspace.Correctness
import Prism.Verification.Workspace.Equations
import Prism.Verification.Workspace.Trace
