import Prism.Model.Connection

/-! Pull-request synchronization: admission of sync runs, the pages of remote
pull requests, and the transactions of `SyncWorker`. -/

namespace Prism

structure Author where
  id : ℕ
  login : String
  deriving DecidableEq, Repr

structure Ref where
  ref : Option String
  sha : Option String
  deriving DecidableEq, Repr

/-- A validated element of a GitHub answer. -/
structure RemotePR where
  id : ℕ
  number : ℕ
  title : String
  user : Option Author
  state : PullState
  draft : Bool
  base : Ref
  head : Ref
  createdAt : Instant
  updatedAt : Instant
  closedAt : Option Instant
  mergedAt : Option Instant
  merged : Option Bool
  changedFiles : Option ℕ
  commits : Option ℕ
  deriving DecidableEq, Repr

namespace Sync

/-! ## Stored runs -/

def isActive (run : PullRequestSyncRun) : Bool :=
  run.status = .pending || run.status = .running

/-- `repository.active`: the pending or running sync of a connection. -/
def active (db : Db) (rid : UUID) : Option (UUID × PullRequestSyncRun) :=
  db.syncRuns.find fun _ run => run.repositoryConnectionId = rid && isActive run

/-- `repository.cached_run`: the last completed run of the same request. -/
def cachedRun (db : Db) (rid : UUID) (mode : SyncMode) (cursor number : Option ℕ)
    (generation : ℕ) : Option PullRequestSyncRun :=
  let runs := db.syncRuns.select fun _ run =>
    run.repositoryConnectionId = rid && run.mode = mode && run.requestCursor = cursor &&
      run.requestedPrNumber = number && run.connectionGeneration = generation &&
      run.status = .completed
  (runs.argmax (fun e => e.2.finishedAt.getD 0)).map Prod.snd

def syncInProgress : Failure :=
  .app ⟨.syncInProgress, "다른 동기화가 진행 중입니다.", .conflict⟩

def modeOf (page : ℕ) (number : Option ℕ) : SyncMode :=
  if number.getD 0 ≠ 0 then .single else if page = 1 then .recent else .page

/-- A pending run as inserted by `enqueue` or `request_event_sync`. -/
def pendingRun (now : Instant) (wid rid : UUID) (generation : ℕ) (requestedBy : Option UUID)
    (mode : SyncMode) (cursor number : Option ℕ) (cached : Option PullRequestSyncRun) :
    PullRequestSyncRun where
  workspaceId := wid
  repositoryConnectionId := rid
  connectionGeneration := generation
  actorType := if requestedBy.isSome then .user else .system
  requestedBy := requestedBy
  mode := mode
  requestedPrNumber := number
  requestCursor := cursor
  nextCursor := cached.bind (·.nextCursor)
  etag := cached.bind (·.etag)
  status := .pending
  fetchedCount := 0
  createdAt := now
  startedAt := none
  finishedAt := none
  lastSuccessAt := none
  errorCode := none

/-- Insert a run and its job in one transaction. -/
def insertRun (db : Db) (sid jid : UUID) (run : PullRequestSyncRun) : Tx Db := do
  let syncRuns ← insertRow db.syncRuns sid run
  let jobs ← Jobs.enqueue db.jobs db.now jid .syncPullRequests sid (some run.workspaceId)
  .ok { db with syncRuns := syncRuns, jobs := jobs }

/-- `pull_request.service.enqueue`; returns the run that serves the request. -/
def enqueue (db : Db) (uid wid rid : UUID) (page : ℕ) (number : Option ℕ) (sid jid : UUID) :
    Tx (UUID × Db) := do
  let repo ← requireRepository db uid wid rid .sync true
  let mode := modeOf page number
  let cursor := if mode = .page then some page else none
  match active db rid with
  | some (id, existing) =>
    if existing.mode ≠ mode ∨ existing.requestCursor ≠ cursor ∨
        existing.requestedPrNumber ≠ number ∨
        existing.connectionGeneration ≠ repo.connectionGeneration then
      .error syncInProgress
    else .ok (id, db)
  | none => do
    let cached := cachedRun db rid mode cursor number repo.connectionGeneration
    let db ← insertRun db sid jid
      (pendingRun db.now wid rid repo.connectionGeneration (some uid) mode cursor number cached)
    .ok (sid, db)

/-- `request_event_sync`: a single-pull-request sync for a delivery, unless the
repository is busy. Returns the new run. -/
def requestEventSync (db : Db) (wid rid : UUID) (generation number : ℕ) (sid jid : UUID) :
    Tx (Option UUID × Db) := do
  let _ ← requireEvent db wid rid generation
  match active db rid with
  | some _ => .ok (none, db)
  | none => do
    let db ← insertRun db sid jid
      (pendingRun db.now wid rid generation none .single none (some number) none)
    .ok (some sid, db)

/-! ## Pull-request rows -/

def mergeStatusOf (pr : RemotePR) : MergeStatus :=
  if pr.mergedAt.isSome ∨ pr.merged = some true then .merged
  else if pr.merged = some false then .notMerged
  else .unknown

/-- The `values` of `upsert`. -/
def rowOf (now : Instant) (wid rid : UUID) (generation : ℕ) (pr : RemotePR) : PullRequest where
  workspaceId := wid
  repositoryConnectionId := rid
  githubPrId := pr.id
  prNumber := pr.number
  title := pr.title
  authorGithubUserId := pr.user.map (·.id)
  authorLogin := pr.user.map (·.login)
  state := pr.state
  mergeStatus := mergeStatusOf pr
  isDraft := pr.draft
  baseRef := pr.base.ref
  headRef := pr.head.ref
  baseSha := pr.base.sha
  headSha := pr.head.sha
  changedFilesCount := pr.changedFiles
  commitsCount := pr.commits
  githubCreatedAt := pr.createdAt
  githubUpdatedAt := pr.updatedAt
  closedAt := pr.closedAt
  mergedAt := pr.mergedAt
  syncedAt := now
  syncedConnectionGeneration := generation

def snapshotConflict : Failure :=
  .gitHub ⟨.githubSnapshotConflict, none⟩

/-- `uq_pr_repository_github` over the rows other than `pid`. -/
def githubIdTaken (pulls : Table UUID PullRequest) (pid rid : UUID) (githubPrId : ℕ) : Bool :=
  pulls.holds fun id row =>
    id ≠ pid && row.repositoryConnectionId = rid && row.githubPrId = githubPrId

/-- `repository.upsert`; `pid` is the fresh identifier of a new row. -/
def upsert (pulls : Table UUID PullRequest) (now : Instant) (wid rid : UUID) (generation : ℕ)
    (pr : RemotePR) (pid : UUID) : Tx (Table UUID PullRequest) :=
  match pulls.find (fun _ row =>
      row.repositoryConnectionId = rid && row.prNumber = pr.number) with
  | some (id, row) =>
    if pr.updatedAt < row.githubUpdatedAt then .ok pulls
    else if row.githubUpdatedAt = pr.updatedAt ∧
        (row.headSha ≠ pr.head.sha ∨ row.baseSha ≠ pr.base.sha) then .error snapshotConflict
    else if githubIdTaken pulls id rid pr.id then .error .integrityError
    else .ok (pulls.put id (rowOf now wid rid generation pr))
  | none =>
    if githubIdTaken pulls pid rid pr.id then .error .integrityError
    else insertRow pulls pid (rowOf now wid rid generation pr)

/-- The loop over the fetched rows; `ids i` identifies the row the `i`-th of the
remaining elements may create. -/
def upsertAll (now : Instant) (wid rid : UUID) (generation : ℕ) (ids : ℕ → UUID) :
    List RemotePR → Table UUID PullRequest → Tx (Table UUID PullRequest)
  | [], pulls => .ok pulls
  | pr :: rest, pulls => do
    let pulls ← upsert pulls now wid rid generation pr (ids 0)
    upsertAll now wid rid generation (fun i => ids (i + 1)) rest pulls

end Sync

/-! ## The worker -/

/-- What the first transaction of `SyncWorker.execute` hands to `fetch`. -/
structure FetchPlan where
  repo : RepositorySnapshot
  page : ℕ
  number : Option ℕ
  etag : Option String
  deriving DecidableEq, Repr

/-- What the network phase of `SyncWorker.execute` hands to `complete`. -/
structure SyncOutcome where
  rows : List RemotePR
  code : Option Code
  retry : Bool
  delay : ℕ
  etag : Option String
  notModified : Bool
  deriving DecidableEq, Repr

namespace SyncWorker

/-- `SyncWorker.access`. -/
def access (db : Db) (run : PullRequestSyncRun) : Tx RepositorySnapshot :=
  match run.actorType with
  | .system => requireEvent db run.workspaceId run.repositoryConnectionId run.connectionGeneration
  | .user => do
    let uid ← assertSome run.requestedBy
    requireRepository db uid run.workspaceId run.repositoryConnectionId .sync true

def started (now : Instant) (run : PullRequestSyncRun) : PullRequestSyncRun :=
  { run with status := .running, startedAt := some now }

/-- The first transaction of `execute`; `none` when there is nothing to do. -/
def begin (db : Db) (c : Claim) : Tx (Option FetchPlan × Db) :=
  match db.syncRuns.get c.aggregateId with
  | none => .ok (none, db)
  | some run => do
    let repo ← access db run
    match Jobs.fence db.jobs db.now c false with
    | none => .ok (none, db)
    | some _ =>
      if repo.connectionGeneration ≠ run.connectionGeneration then .error connectionChanged
      else
        .ok (some ⟨repo, run.requestCursor.getD 1, run.requestedPrNumber, run.etag⟩,
          { db with syncRuns := db.syncRuns.put c.aggregateId (started db.now run) })

/-- The code and retry flag `complete` goes on with after re-checking access. -/
def verdict (db : Db) (run : PullRequestSyncRun) (code : Option Code) (retry : Bool) :
    Tx (Option Code × Bool) :=
  match access db run with
  | .ok repo =>
    if repo.connectionGeneration ≠ run.connectionGeneration then
      .ok (some .connectionChanged, false)
    else .ok (code, retry)
  | .error f =>
    match f.appCode? with
    | some code => .ok (some code, false)
    | none => .error f

def synced (now : Instant) (row : RepositoryConnection) : RepositoryConnection :=
  { row with lastSyncSuccessAt := some now }

/-- `sync_success` of the actor's access object. -/
def syncSuccess (db : Db) (run : PullRequestSyncRun) : Tx (Table UUID RepositoryConnection) := do
  let row ← match run.actorType with
    | .system => do
      let _ ← requireEvent db run.workspaceId run.repositoryConnectionId run.connectionGeneration
      assertSome (connectionIn db run.workspaceId run.repositoryConnectionId)
    | .user => do
      let uid ← assertSome run.requestedBy
      Prism.access db uid run.workspaceId run.repositoryConnectionId .sync true
  .ok (db.connections.put run.repositoryConnectionId (synced db.now row))

/-- The fields of a run that a stored page changes. -/
def fetched (now : Instant) (run : PullRequestSyncRun) (o : SyncOutcome) : PullRequestSyncRun :=
  { run with
    etag := o.etag
    fetchedCount := o.rows.length
    lastSuccessAt := some now
    nextCursor :=
      if o.notModified then run.nextCursor
      else if o.rows.length = 30 ∧ run.mode ≠ .single then some (run.requestCursor.getD 1 + 1)
      else none }

/-- The branch `code is None` of `complete`: store the page and the success. -/
def storePage (db : Db) (run : PullRequestSyncRun) (ids : ℕ → UUID) (o : SyncOutcome) :
    Tx (PullRequestSyncRun × Db) := do
  let pulls ← Sync.upsertAll db.now run.workspaceId run.repositoryConnectionId
    run.connectionGeneration ids o.rows db.pullRequests
  let connections ← syncSuccess db run
  .ok (fetched db.now run o, { db with pullRequests := pulls, connections := connections })

/-- The end of `complete`: the job is finished and the run follows it. -/
def closed (now : Instant) (run : PullRequestSyncRun) (job : Job) (code : Option Code) :
    PullRequestSyncRun :=
  { run with
    status :=
      if job.state = .ready then .pending else if code.isSome then .failed else .completed
    finishedAt := if job.state = .ready then none else some now
    errorCode := code }

/-- `SyncWorker.complete`. -/
def complete (db : Db) (c : Claim) (ids : ℕ → UUID) (o : SyncOutcome) (expired : Bool) :
    Tx Db :=
  match db.syncRuns.get c.aggregateId with
  | none => .ok db
  | some run => do
    let (code, retry) ← verdict db run o.code o.retry
    match Jobs.fence db.jobs db.now c expired with
    | none => .ok db
    | some job => do
      let connections :=
        if code = some .githubAccessUnavailable then
          suspendLocked db.connections [run.repositoryConnectionId]
        else db.connections
      let (run, db) ←
        if code = none then storePage db run ids o
        else .ok (run, { db with connections := connections })
      let job ← Jobs.finish db.now job code retry o.delay
      .ok { db with
        jobs := db.jobs.put c.id job
        syncRuns := db.syncRuns.put c.aggregateId (closed db.now run job code) }

end SyncWorker

end Prism
