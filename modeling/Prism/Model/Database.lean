import Prism.Foundation.Json
import Prism.Model.Jobs

/-! The rows the transactions read and write. Unique constraints other than the
primary keys are checked where rows are inserted. -/

namespace Prism

/-! ## Tenancy -/

inductive Activity where
  | active | inactive
  deriving DecidableEq, Repr

inductive ReviewMode where
  | junior | senior
  deriving DecidableEq, Repr

structure User where
  githubUserId : ℕ
  status : Activity
  reviewMode : ReviewMode
  deriving DecidableEq, Repr

inductive Role where
  | owner | admin | member
  deriving DecidableEq, Repr

inductive MemberStatus where
  | active | left | removed
  deriving DecidableEq, Repr

structure WorkspaceMember where
  role : Role
  status : MemberStatus
  deriving DecidableEq, Repr

/-! ## Repository connections -/

inductive ConnectionStatus where
  | active | suspended | disconnected
  deriving DecidableEq, Repr

structure RepositoryConnection where
  workspaceId : UUID
  githubRepositoryId : ℕ
  installationId : ℕ
  ownerLogin : String
  repositoryName : String
  isPrivate : Bool
  defaultBranch : Option String
  status : ConnectionStatus
  connectionGeneration : ℕ
  currentConfigVersionId : UUID
  connectedBy : UUID
  connectedAt : Instant
  disconnectedAt : Option Instant
  lastSyncSuccessAt : Option Instant
  deriving DecidableEq, Repr

/-- A configuration version; of the JSON objects `rules` and `layer_mappings`
only the keys matter, since both must be empty. -/
structure RuleConfigVersion where
  workspaceId : UUID
  repositoryConnectionId : UUID
  version : ℕ
  rules : List String
  layerMappings : List String
  ignoredPaths : List String
  configDigest : String
  createdBy : UUID
  deriving DecidableEq, Repr

/-! ## Pull requests -/

inductive PullState where
  | opened | closed
  deriving DecidableEq, Repr

inductive MergeStatus where
  | unknown | notMerged | merged
  deriving DecidableEq, Repr

structure PullRequest where
  workspaceId : UUID
  repositoryConnectionId : UUID
  githubPrId : ℕ
  prNumber : ℕ
  title : String
  authorGithubUserId : Option ℕ
  authorLogin : Option String
  state : PullState
  mergeStatus : MergeStatus
  isDraft : Bool
  baseRef : Option String
  headRef : Option String
  baseSha : Option String
  headSha : Option String
  changedFilesCount : Option ℕ
  commitsCount : Option ℕ
  githubCreatedAt : Instant
  githubUpdatedAt : Instant
  closedAt : Option Instant
  mergedAt : Option Instant
  syncedAt : Instant
  syncedConnectionGeneration : ℕ
  deriving DecidableEq, Repr

inductive ActorType where
  | user | system
  deriving DecidableEq, Repr

inductive SyncMode where
  | recent | page | single
  deriving DecidableEq, Repr

/-- The status of the three kinds of run. -/
inductive RunStatus where
  | pending | running | completed | failed | canceled
  deriving DecidableEq, Repr

/-- `TERMINAL = ("COMPLETED", "FAILED", "CANCELED")`. -/
def RunStatus.terminal : RunStatus → Bool
  | .pending | .running => false
  | .completed | .failed | .canceled => true

/-- A sync run; `requestCursor` is the page number the column holds as text. -/
structure PullRequestSyncRun where
  workspaceId : UUID
  repositoryConnectionId : UUID
  connectionGeneration : ℕ
  actorType : ActorType
  requestedBy : Option UUID
  mode : SyncMode
  requestedPrNumber : Option ℕ
  requestCursor : Option ℕ
  nextCursor : Option ℕ
  etag : Option String
  status : RunStatus
  fetchedCount : ℕ
  createdAt : Instant
  startedAt : Option Instant
  finishedAt : Option Instant
  lastSuccessAt : Option Instant
  errorCode : Option Code
  deriving DecidableEq, Repr

/-! ## Static analysis -/

inductive Language where
  | java | javascript | typescript | python
  deriving DecidableEq, Repr

inductive FileStatus where
  | included | excluded | sourceUnavailable | parseError | limitExceeded
  deriving DecidableEq, Repr

/-- Why a file was not, or not completely, evaluated. -/
inductive FileReason where
  | removed | nonRegularFile | sourceSizeLimit | sourceUnavailable | fileSizeLimit
  | encodingUnsupported | binaryOrLfs | secretScanOnly | ignoredSourceRules
  | generatedSecretScanOnly | syntaxError | bindingUnresolved | parserFailed | parserTimeout
  deriving DecidableEq, Repr

inductive Side where
  | head | base | file
  deriving DecidableEq, Repr

structure RuleOutcome where
  ruleId : String
  ruleVersion : String
  evaluated : Bool
  reasonCode : Option FileReason
  deriving DecidableEq, Repr

/-- One element of `Result.files`. -/
structure FileEntry where
  filePath : String
  pathDigest : String
  side : Side
  language : Option Language
  sourceSha : Option String
  status : FileStatus
  reasonCode : Option FileReason
  findingLimitReached : Bool
  ruleOutcomes : List RuleOutcome
  deriving DecidableEq, Repr

inductive Category where
  | architecture | security | reliability | maintainability | style | performance
  deriving DecidableEq, Repr

inductive Severity where
  | info | warning | error | critical
  deriving DecidableEq, Repr

inductive Confidence where
  | high | medium | low
  deriving DecidableEq, Repr

inductive ScopeLocation where
  | changed | context | file
  deriving DecidableEq, Repr

/-- One element of `Result.findings`. -/
structure FindingEntry where
  ruleId : String
  ruleVersion : String
  category : Category
  severity : Severity
  confidence : Confidence
  language : Option Language
  filePath : String
  startLine : Option ℕ
  endLine : Option ℕ
  side : Side
  scopeLocation : ScopeLocation
  messageCode : String
  sanitizedMessage : String
  fingerprint : String
  deriving DecidableEq, Repr

inductive Coverage where
  | fullScope | partialScope | none
  deriving DecidableEq, Repr

inductive CoverageReason where
  | noSupportedFiles | fileLimit | incompleteScope | noEvaluatedFiles
  deriving DecidableEq, Repr

/-- What `analyze` returns. -/
structure Result where
  files : List FileEntry
  findings : List FindingEntry
  coverage : Coverage
  reason : Option CoverageReason
  deriving DecidableEq, Repr

/-- The inputs `execution_key` is the digest of, besides the generation. -/
structure AnalysisInputs where
  workspaceId : UUID
  repositoryConnectionId : UUID
  connectionGeneration : ℕ
  prId : UUID
  baseSha : String
  headSha : String
  mergeBaseSha : Option String
  ruleSetVersion : String
  configVersionId : UUID
  effectiveConfigDigest : String
  analyzerBuildDigest : String
  deriving DecidableEq, Repr

structure AnalysisRun extends AnalysisInputs where
  generation : ℕ
  executionKey : String
  requestedBy : Option UUID
  actorType : ActorType
  status : RunStatus
  coverageStatus : Option Coverage
  coverageReason : Option CoverageReason
  totalFiles : ℕ
  includedFiles : ℕ
  excludedFiles : ℕ
  failedFiles : ℕ
  notEvaluatedRules : ℕ
  findingCount : ℕ
  createdAt : Instant
  startedAt : Option Instant
  finishedAt : Option Instant
  errorCode : Option Code
  deriving DecidableEq, Repr

structure AnalysisFileResult where
  id : UUID
  workspaceId : UUID
  analysisId : UUID
  entry : FileEntry
  deriving DecidableEq, Repr

structure Finding where
  id : UUID
  workspaceId : UUID
  analysisId : UUID
  entry : FindingEntry
  deriving DecidableEq, Repr

/-! ## Reviews and team documents -/

inductive Purpose where
  | code | security | standards
  deriving DecidableEq, Repr

structure ReviewRun where
  purpose : Purpose
  mode : ReviewMode
  standardVersions : List UUID
  workspaceId : UUID
  analysisId : UUID
  prId : UUID
  repositoryConnectionId : UUID
  connectionGeneration : ℕ
  requestedBy : UUID
  headSha : String
  model : String
  promptVersion : String
  policyVersion : String
  generation : ℕ
  executionKey : String
  status : RunStatus
  consentedAt : Instant
  createdAt : Instant
  startedAt : Option Instant
  finishedAt : Option Instant
  callAttempts : ℕ
  inputTokens : ℤ
  outputTokens : ℤ
  usageUncertain : Bool
  errorCode : Option Code
  result : Option Json

/-- A document version joined with the columns of its document that
`standards.repository.snapshots` filters by. -/
structure StandardVersion where
  id : UUID
  workspaceId : UUID
  repositoryConnectionId : UUID
  documentActive : Bool
  current : Bool
  deriving DecidableEq, Repr

/-! ## Webhooks -/

inductive WebhookEvent where
  | pullRequest | installation | installationRepositories
  deriving DecidableEq, Repr

inductive DeliveryStatus where
  | pending | processing | processed | failed | canceled | ignored
  deriving DecidableEq, Repr

def DeliveryStatus.terminal : DeliveryStatus → Bool
  | .pending | .processing => false
  | .processed | .failed | .canceled | .ignored => true

/-- The verified fields of a delivery. -/
structure Event where
  deliveryId : String
  event : WebhookEvent
  action : String
  installationId : ℕ
  repositoryId : Option ℕ
  number : Option ℕ
  affected : List ℕ
  digest : String
  deriving DecidableEq, Repr

structure WebhookDelivery where
  deliveryId : String
  event : WebhookEvent
  action : String
  installationId : ℕ
  githubRepositoryId : Option ℕ
  prNumber : Option ℕ
  workspaceId : Option UUID
  repositoryConnectionId : Option UUID
  connectionGeneration : Option ℕ
  affectedRepositoryIds : List ℕ
  bodyDigest : String
  status : DeliveryStatus
  receivedAt : Instant
  processedAt : Option Instant
  errorCode : Option Code
  deriving DecidableEq, Repr

/-! ## The database -/

/-- A snapshot of the tables and of the wall clock. Members are addressed by
workspace and user, as `uq_workspace_members_workspace_user` allows. -/
structure Db where
  now : Instant
  users : Table UUID User
  workspaces : Table UUID Activity
  members : Table (UUID × UUID) WorkspaceMember
  connections : Table UUID RepositoryConnection
  configs : Table UUID RuleConfigVersion
  pullRequests : Table UUID PullRequest
  syncRuns : Table UUID PullRequestSyncRun
  analysisRuns : Table UUID AnalysisRun
  fileResults : List AnalysisFileResult
  findings : List Finding
  reviewRuns : Table UUID ReviewRun
  standards : List StandardVersion
  deliveries : Table UUID WebhookDelivery
  jobs : Table UUID Job

/-- The database after the migrations, at some time. -/
def Db.empty (now : Instant) : Db where
  now := now
  users := ∅
  workspaces := ∅
  members := ∅
  connections := ∅
  configs := ∅
  pullRequests := ∅
  syncRuns := ∅
  analysisRuns := ∅
  fileResults := []
  findings := []
  reviewRuns := ∅
  standards := []
  deliveries := ∅
  jobs := ∅

/-- Insert under a fresh primary key. -/
def insertRow {ρ : Type} (t : Table UUID ρ) (k : UUID) (r : ρ) : Tx (Table UUID ρ) :=
  if (t.get k).isSome then .error .integrityError else .ok (t.put k r)

theorem insertRow_eq_ok {ρ : Type} (t t' : Table UUID ρ) (k : UUID) (r : ρ) :
    insertRow t k r = .ok t' ↔ t.get k = none ∧ t' = t.put k r := by
  unfold insertRow
  cases t.get k <;> simp [eq_comm]

end Prism
