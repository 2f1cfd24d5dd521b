import Prism.Model.PullRequest

/-! Static-analysis runs: `AnalysisService.start` and `cancel`, and the
transactions of `AnalysisWorker`. `analyze` itself runs between them. -/

namespace Prism

/-- What a process knows about its own build and configuration. The keys stand
for the SHA-256 digests of the canonical inputs. -/
structure Settings where
  analysisEnabled : Bool
  ruleSet : String
  buildDigest : String
  analysisKey : AnalysisInputs → ℕ → String
  aiEnabled : Bool
  deepseekModel : String
  promptVersion : String
  policyVersion : String
  aiDailyLimit : ℕ
  reviewKey : UUID → UUID → ℕ → String → String → String → ℕ → Purpose → ReviewMode →
    List UUID → String

/-- `re.fullmatch("[0-9a-f]{40}", sha)`. -/
def isCommitSha (sha : String) : Bool :=
  sha.length = 40 && sha.toList.all fun c => c.isDigit || ('a' ≤ c && c ≤ 'f')

/-- The history of a leased job after a user canceled it. -/
def userCanceled (now : Instant) (history : List Attempt) : List Attempt :=
  history.modifyLast fun a =>
    { a with
      finishedAt := some now
      outcome := some .canceled
      errorCode := some .userCanceled }

/-- The columns both services write when a user cancels. -/
def canceledJob (now : Instant) (history : List Attempt) (job : Job) : Job :=
  { job with
    state := .canceled
    completedAt := some now
    leaseUntil := none
    claimedBy := none
    errorCode := some .userCanceled
    attemptHistory := history }

/-- The job of an aggregate. -/
def jobOf (db : Db) (kind : Kind) (aggregate : UUID) : Option (UUID × Job) :=
  db.jobs.find fun _ j => j.kind = kind && j.aggregateId = aggregate

namespace Analysis

def runInputs (row : AnalysisRun) : AnalysisInputs := row.toAnalysisInputs

/-- The commits a run is fixed to: those of the run it repeats, or the current ones. -/
def commits (db : Db) (wid pid : UUID) (repo : RepositorySnapshot) (pr : PullRequest)
    (rerunOf : Option UUID) : Tx (Option String × Option String) :=
  match rerunOf with
  | none => .ok (pr.baseSha, pr.headSha)
  | some previousId => do
    let previous ← findRun db wid previousId
    if previous.prId ≠ pid ∨ previous.repositoryConnectionId ≠ repo.id ∨
        previous.connectionGeneration ≠ repo.connectionGeneration ∨
        previous.status.terminal = false then
      .error (error .invalidRerun .conflict)
    else .ok (some previous.baseSha, some previous.headSha)

/-- `max(generation) + 1` over the runs with these inputs. -/
def nextGeneration (db : Db) (inputs : AnalysisInputs) : ℕ :=
  let runs := db.analysisRuns.select fun _ row => runInputs row = inputs
  ((runs.map fun e => e.2.generation).max?).getD 0 + 1

def newRun (now : Instant) (uid : UUID) (inputs : AnalysisInputs) (generation : ℕ)
    (key : String) : AnalysisRun where
  toAnalysisInputs := inputs
  generation := generation
  executionKey := key
  requestedBy := some uid
  actorType := .user
  status := .pending
  coverageStatus := none
  coverageReason := none
  totalFiles := 0
  includedFiles := 0
  excludedFiles := 0
  failedFiles := 0
  notEvaluatedRules := 0
  findingCount := 0
  createdAt := now
  startedAt := none
  finishedAt := none
  errorCode := none

/-- Return the run of the same key, refuse a second active run of the pull
request, or insert a run with its job. -/
def admitRun (db : Db) (uid wid pid : UUID) (inputs : AnalysisInputs) (generation : ℕ)
    (key : String) (aid jid : UUID) : Tx (UUID × Db) :=
  match db.analysisRuns.find (fun _ row => row.executionKey = key) with
  | some (id, _) => .ok (id, db)
  | none =>
    if db.analysisRuns.holds (fun _ row =>
        row.prId = pid && row.workspaceId = wid && !row.status.terminal) then
      .error (error .analysisInProgress .conflict)
    else do
      let runs ← insertRow db.analysisRuns aid (newRun db.now uid inputs generation key)
      let jobs ← Jobs.enqueue db.jobs db.now jid .analyzePr aid (some wid)
      .ok (aid, { db with analysisRuns := runs, jobs := jobs })

/-- `AnalysisService.start`; returns the run that serves the request. -/
def start (st : Settings) (db : Db) (uid wid pid : UUID) (rerunOf : Option UUID)
    (aid jid : UUID) : Tx (UUID × Db) :=
  if st.analysisEnabled = false then .error (error .analysisRunnerDisabled .unavailable)
  else do
    let pr ← analysisSnapshot db uid wid pid
    let repo ← requireRepository db uid wid pr.repositoryConnectionId .sync true
    let (config, configDigest, _) ← analysisConfig db uid wid repo.id none
    let (base, head) ← commits db wid pid repo pr rerunOf
    match base, head with
    | some base, some head =>
      if isCommitSha base = false ∨ isCommitSha head = false then
        .error (error .prSnapshotRequired .conflict)
      else
        let inputs : AnalysisInputs :=
          { workspaceId := wid
            repositoryConnectionId := repo.id
            connectionGeneration := repo.connectionGeneration
            prId := pid
            baseSha := base
            headSha := head
            mergeBaseSha := none
            ruleSetVersion := st.ruleSet
            configVersionId := config
            effectiveConfigDigest := configDigest
            analyzerBuildDigest := st.buildDigest }
        let generation := if rerunOf.isSome then nextGeneration db inputs else 0
        admitRun db uid wid pid inputs generation (st.analysisKey inputs generation) aid jid
    | _, _ => .error (error .prSnapshotRequired .conflict)

def jobNotFound : Failure :=
  error .jobNotFound .conflict

def canceled (now : Instant) (row : AnalysisRun) : AnalysisRun :=
  { row with status := .canceled, finishedAt := some now, errorCode := some .userCanceled }

/-- The rest of `cancel` for a run the user may cancel. -/
def cancelRun (db : Db) (aid : UUID) (row : AnalysisRun) : Tx Db :=
  if row.status.terminal then .ok db
  else
    match jobOf db .analyzePr aid with
    | none => .error jobNotFound
    | some (jid, job) =>
      let history :=
        if job.state = .leased then userCanceled db.now job.attemptHistory
        else job.attemptHistory
      .ok { db with
        jobs := db.jobs.put jid (canceledJob db.now history job)
        analysisRuns := db.analysisRuns.put aid (canceled db.now row) }

/-- `AnalysisService.cancel`. -/
def cancel (db : Db) (uid wid aid : UUID) : Tx Db := do
  let row ← authorized db uid wid aid false
  if row.requestedBy ≠ some uid then do
    let _ ← requirePermission db uid wid .manage
    cancelRun db aid row
  else cancelRun db aid row

end Analysis

/-- What the first transaction of `AnalysisWorker.execute` hands to `analyze`. -/
structure AnalysisPlan where
  repo : RepositorySnapshot
  number : ℕ
  baseSha : String
  headSha : String
  ignored : List String
  deriving DecidableEq, Repr

namespace AnalysisWorker

open Analysis (findRun authorized error)

/-- `AnalysisWorker.checkpoint`. -/
def checkpoint (db : Db) (c : Claim) : Tx Unit := do
  let wid ← assertSome c.workspaceId
  if lockSystem db wid = false then .error (error .accessRevoked .conflict)
  else do
    let row ← findRun db wid c.aggregateId
    if row.status.terminal then .error (error .analysisCanceled .conflict)
    else do
      let uid ← assertSome row.requestedBy
      let _ ← authorized db uid row.workspaceId c.aggregateId true
      if (Jobs.fence db.jobs db.now c false).isNone then .error (error .leaseLost .conflict)
      else .ok ()

def started (now : Instant) (row : AnalysisRun) : AnalysisRun :=
  { row with status := .running, startedAt := some now }

/-- The first transaction of `execute`; `none` when there is nothing to do. -/
def begin (st : Settings) (db : Db) (c : Claim) : Tx (Option AnalysisPlan × Db) := do
  let wid ← assertSome c.workspaceId
  if lockSystem db wid = false then .error (error .accessRevoked .conflict)
  else do
    let row ← findRun db wid c.aggregateId
    if row.status.terminal ∨ (Jobs.fence db.jobs db.now c false).isNone then .ok (none, db)
    else do
      let uid ← assertSome row.requestedBy
      let _ ← authorized db uid row.workspaceId c.aggregateId true
      let repo ← requireRepository db uid row.workspaceId row.repositoryConnectionId .read true
      let (configId, configDigest, ignored) ←
        analysisConfig db uid row.workspaceId repo.id (some row.configVersionId)
      if row.analyzerBuildDigest ≠ st.buildDigest ∨ row.ruleSetVersion ≠ st.ruleSet ∨
          configId ≠ row.configVersionId ∨ configDigest ≠ row.effectiveConfigDigest then
        .error (error .analyzerVersionChanged .conflict)
      else do
        let pr ← analysisSnapshot db uid row.workspaceId row.prId
        .ok (some ⟨repo, pr.prNumber, row.baseSha, row.headSha, ignored⟩,
          { db with analysisRuns := db.analysisRuns.put c.aggregateId (started db.now row) })

/-- What `complete` goes on with after re-checking the requester's access. -/
def verdict (db : Db) (c : Claim) (row : AnalysisRun) (result : Option Result)
    (code : Option Code) (retry : Bool) : Tx (Option Result × Option Code × Bool) := do
  let uid ← assertSome row.requestedBy
  match authorized db uid row.workspaceId c.aggregateId true with
  | .ok _ => .ok (result, code, retry)
  | .error f =>
    match f.appCode? with
    | some _ => .ok (none, some .accessRevoked, false)
    | none => .error f

def fileRows (wid aid : UUID) (ids : ℕ → UUID) (files : List FileEntry) :
    List AnalysisFileResult :=
  files.mapIdx fun i f => ⟨ids i, wid, aid, f⟩

def findingRows (wid aid : UUID) (ids : ℕ → UUID) (findings : List FindingEntry) :
    List Finding :=
  findings.mapIdx fun i f => ⟨ids i, wid, aid, f⟩

/-- Primary keys and `uq_analysis_file`. -/
def fileKeysUnique (rows : List AnalysisFileResult) : Bool :=
  decide (rows.map (·.id)).Nodup &&
    decide (rows.map fun r => (r.analysisId, r.entry.side, r.entry.pathDigest)).Nodup

/-- Primary keys and `uq_finding_fingerprint`. -/
def findingKeysUnique (rows : List Finding) : Bool :=
  decide (rows.map (·.id)).Nodup &&
    decide (rows.map fun r => (r.analysisId, r.entry.fingerprint)).Nodup

/-- The coverage and counters `complete` derives from a result. -/
def counted (row : AnalysisRun) (result : Result) : AnalysisRun :=
  let included := result.files.countP fun f => f.status = .included
  let excluded := result.files.countP fun f => f.status = .excluded
  { row with
    coverageStatus := some result.coverage
    coverageReason := result.reason
    totalFiles := result.files.length
    findingCount := result.findings.length
    includedFiles := included
    excludedFiles := excluded
    failedFiles := result.files.length - included - excluded
    notEvaluatedRules := (result.files.flatMap (·.ruleOutcomes)).countP fun o => !o.evaluated }

/-- The branch of `complete` that persists a result. -/
def saveRows (db : Db) (c : Claim) (row : AnalysisRun) (fileIds findingIds : ℕ → UUID)
    (result : Result) : Tx (AnalysisRun × Db) :=
  let files := db.fileResults ++ fileRows row.workspaceId c.aggregateId fileIds result.files
  let findings := db.findings ++
    findingRows row.workspaceId c.aggregateId findingIds result.findings
  if fileKeysUnique files = false ∨ findingKeysUnique findings = false then
    .error .integrityError
  else .ok (counted row result, { db with fileResults := files, findings := findings })

/-- The codes `complete` turns into a cancellation. -/
def cancels (code : Option Code) : Bool :=
  code ∈ [some Code.accessRevoked, some .analysisCanceled, some .connectionChanged]

/-- The status of the run once its job is finished. -/
def statusAfter (state : JobState) (code : Option Code) : RunStatus :=
  if state = .ready then .pending
  else if cancels code then .canceled
  else if code.isSome then .failed
  else .completed

/-- A canceled run overrides the state of its finished job. -/
def jobAfter (job : Job) (code : Option Code) : Job :=
  if statusAfter job.state code = .canceled then { job with state := .canceled } else job

def closed (now : Instant) (row : AnalysisRun) (job : Job) (code : Option Code) : AnalysisRun :=
  { row with
    status := statusAfter job.state code
    errorCode := code
    finishedAt := if job.state = .ready then none else some now }

/-- `AnalysisWorker.complete`; the identifiers are those of the inserted rows. -/
def complete (db : Db) (c : Claim) (fileIds findingIds : ℕ → UUID) (result : Option Result)
    (code : Option Code) (retry expired : Bool) (delay : ℕ) : Tx Db := do
  let wid ← assertSome c.workspaceId
  let row ← findRun db wid c.aggregateId
  if row.status.terminal then .ok db
  else do
    let (result, code, retry) ← verdict db c row result code retry
    match Jobs.fence db.jobs db.now c expired with
    | none => .ok db
    | some job => do
      let (row, db) ←
        match code, result with
        | none, some result => saveRows db c row fileIds findingIds result
        | _, _ => .ok (row, db)
      let job ← Jobs.finish db.now job code retry delay
      .ok { db with
        jobs := db.jobs.put c.id (jobAfter job code)
        analysisRuns := db.analysisRuns.put c.aggregateId (closed db.now row job code) }

end AnalysisWorker

end Prism
