import Prism.Model.Analysis

/-! Explanatory reviews: `ReviewService.start` and `cancel`, and the transactions
of `ReviewWorker`. The provider calls happen between those transactions. -/

namespace Prism

namespace Review

/-- `now.replace(hour=0, minute=0, second=0, microsecond=0)`; instants count from
a midnight. -/
def startOfDay (now : Instant) : Instant :=
  now / seconds 86400 * seconds 86400

/-- The `conditions` of `start`. -/
def sameConditions (st : Settings) (wid aid : UUID) (purpose : Purpose) (mode : ReviewMode)
    (row : ReviewRun) : Bool :=
  row.purpose = purpose && row.mode = mode && row.workspaceId = wid && row.analysisId = aid &&
    row.model = st.deepseekModel && row.promptVersion = st.promptVersion &&
    row.policyVersion = st.policyVersion

def versions (db : Db) (wid repo : UUID) (purpose : Purpose) : Tx (List UUID) :=
  if purpose = .standards then standardsSnapshot db wid repo none else .ok []

/-- The generation of a request: 0, or one more than the runs it repeats. -/
def nextGeneration (st : Settings) (db : Db) (wid aid : UUID) (purpose : Purpose)
    (mode : ReviewMode) (rerun : Option UUID) : Tx ℕ :=
  match rerun with
  | none => .ok 0
  | some previousId => do
    let previous ← getRow db wid previousId
    if previous.analysisId ≠ aid ∨ previous.purpose ≠ purpose ∨
        previous.status.terminal = false then
      .error (error .invalidRerun .conflict)
    else
      let runs := db.reviewRuns.select fun _ row => sameConditions st wid aid purpose mode row
      .ok (((runs.map fun e => e.2.generation).max?).getD 0 + 1)

/-- The inserted row. `consented_at` is the clock of the process, `created_at` the
start of the transaction. -/
def newRun (st : Settings) (now began : Instant) (uid wid : UUID) (snap : ReviewSnapshot)
    (purpose : Purpose) (mode : ReviewMode) (versions : List UUID) (generation : ℕ)
    (key : String) : ReviewRun where
  purpose := purpose
  mode := mode
  standardVersions := versions
  workspaceId := wid
  analysisId := snap.id
  prId := snap.prId
  repositoryConnectionId := snap.repositoryId
  connectionGeneration := snap.connectionGeneration
  requestedBy := uid
  headSha := snap.headSha
  model := st.deepseekModel
  promptVersion := st.promptVersion
  policyVersion := st.policyVersion
  generation := generation
  executionKey := key
  status := .pending
  consentedAt := now
  createdAt := began
  startedAt := none
  finishedAt := none
  callAttempts := 0
  inputTokens := 0
  outputTokens := 0
  usageUncertain := false
  errorCode := none
  result := none

/-- The runs of a workspace that count against today's limit. -/
def used (db : Db) (wid : UUID) : ℕ :=
  (db.reviewRuns.select fun _ row =>
    row.workspaceId = wid && decide (startOfDay db.now ≤ row.createdAt)).length

/-- Return the run of the same key, refuse a second active run of the workspace
or one above the daily limit, or insert the run with its job. -/
def admitRun (st : Settings) (db : Db) (wid : UUID) (run : ReviewRun) (rid jid : UUID) :
    Tx (UUID × Db) :=
  match db.reviewRuns.find (fun _ row => row.executionKey = run.executionKey) with
  | some (id, _) => .ok (id, db)
  | none =>
    if db.reviewRuns.holds (fun _ row => row.workspaceId = wid && !row.status.terminal) then
      .error (error .reviewInProgress .conflict)
    else if st.aiDailyLimit ≤ used db wid then .error (error .aiDailyLimit .conflict)
    else do
      let runs ← insertRow db.reviewRuns rid run
      let jobs ← Jobs.enqueue db.jobs db.now jid .explainFindings rid (some wid)
      .ok (rid, { db with reviewRuns := runs, jobs := jobs })

/-- `ReviewService.start`; returns the run that serves the request. The purpose
is one of the three known ones by its type. The transaction began `waited` before
it was given the lock of the workspace. -/
def start (st : Settings) (db : Db) (uid wid aid : UUID) (consent : Bool)
    (rerun : Option UUID) (purpose : Purpose) (waited : ℕ) (rid jid : UUID) :
    Tx (UUID × Db) :=
  if st.aiEnabled = false then .error (error .aiDisabled .unavailable)
  else if consent = false then .error (error .aiConsentRequired .invalidInput)
  else do
    let _ ← requirePermission db uid wid .owner
    let snap ← reviewSnapshot db uid wid aid
    let user ← getActiveUser db uid
    let versions ← versions db wid snap.repositoryId purpose
    let generation ← nextGeneration st db wid aid purpose user.reviewMode rerun
    let key := st.reviewKey wid aid snap.connectionGeneration st.deepseekModel st.promptVersion
      st.policyVersion generation purpose user.reviewMode versions
    admitRun st db wid
      (newRun st db.now (db.now - waited) uid wid snap purpose user.reviewMode versions generation
        key) rid jid

def canceled (now : Instant) (row : ReviewRun) : ReviewRun :=
  { row with
    status := .canceled
    finishedAt := some now
    errorCode := some .userCanceled
    usageUncertain := decide (0 < row.callAttempts) }

/-- `ReviewService.cancel`. -/
def cancel (db : Db) (uid wid rid : UUID) : Tx Db := do
  let row ← authorize db uid wid rid true
  if row.status.terminal then .ok db
  else do
    let (jid, job) ← assertSome (jobOf db .explainFindings rid)
    .ok { db with
      reviewRuns := db.reviewRuns.put rid (canceled db.now row)
      jobs := db.jobs.put jid
        (canceledJob db.now (userCanceled db.now job.attemptHistory) job) }

end Review

/-- What the first transaction of `ReviewWorker.execute` hands to the network
phase, besides the findings and the earlier feedback. -/
structure ReviewPlan where
  snap : ReviewSnapshot
  repo : RepositorySnapshot
  ignored : List String
  number : ℕ
  purpose : Purpose
  mode : ReviewMode
  standards : List UUID
  deriving DecidableEq, Repr

namespace ReviewWorker

open Review (error getRow authorize)

def started (now : Instant) (row : ReviewRun) : ReviewRun :=
  { row with status := .running, startedAt := some now }

/-- The condition of `REVIEW_REPLAY_BLOCKED`. -/
def replayed (st : Settings) (row : ReviewRun) : Bool :=
  row.callAttempts ≠ 0 || row.model ≠ st.deepseekModel ||
    row.policyVersion ≠ st.policyVersion || row.promptVersion ≠ st.promptVersion

/-- The first transaction of `execute`; `none` when there is nothing to do. -/
def begin (st : Settings) (db : Db) (c : Claim) : Tx (Option ReviewPlan × Db) := do
  let wid ← assertSome c.workspaceId
  let row ← getRow db wid c.aggregateId
  if row.status.terminal ∨ (Jobs.fence db.jobs db.now c false).isNone then .ok (none, db)
  else do
    let _ ← authorize db row.requestedBy row.workspaceId c.aggregateId true
    if replayed st row then .error (error .reviewReplayBlocked .conflict)
    else do
      let snap ← reviewSnapshot db row.requestedBy row.workspaceId row.analysisId
      let repo ← requireRepository db row.requestedBy row.workspaceId snap.repositoryId .read true
      let (_, _, ignored) ← analysisConfig db row.requestedBy row.workspaceId repo.id
        (some snap.configVersionId)
      let pr ← analysisSnapshot db row.requestedBy row.workspaceId snap.prId
      let standards ←
        if row.purpose = .standards then
          standardsSnapshot db row.workspaceId snap.repositoryId (some row.standardVersions)
        else .ok []
      .ok (some ⟨snap, repo, ignored, pr.prNumber, row.purpose, row.mode, standards⟩,
        { db with reviewRuns := db.reviewRuns.put c.aggregateId (started db.now row) })

/-- `ReviewWorker.still_authorized`. -/
def stillAuthorized (db : Db) (c : Claim) : Tx Bool := do
  let wid ← assertSome c.workspaceId
  let row ← getRow db wid c.aggregateId
  if row.status ≠ .running ∨ (Jobs.fence db.jobs db.now c false).isNone then .ok false
  else do
    let _ ← authorize db row.requestedBy row.workspaceId c.aggregateId true
    .ok true

/-- The token counts every write of a worker raises. -/
def metered (row : ReviewRun) (incoming outgoing : ℤ) : ReviewRun :=
  { row with
    inputTokens := max (max row.inputTokens incoming) 0
    outputTokens := max (max row.outputTokens outgoing) 0 }

def reserved (row : ReviewRun) (expected : ℕ) : ReviewRun :=
  { row with callAttempts := expected + 1, usageUncertain := true }

/-- `ReviewWorker.reserve`: whether the call may be made. -/
def reserve (db : Db) (c : Claim) (expected : ℕ) (incoming outgoing : ℤ) : Tx (Bool × Db) := do
  let wid ← assertSome c.workspaceId
  let row ← getRow db wid c.aggregateId
  let row := metered row incoming outgoing
  if row.status ≠ .running ∨ row.callAttempts ≠ expected ∨
      (Jobs.fence db.jobs db.now c false).isNone then
    .ok (false, { db with reviewRuns := db.reviewRuns.put c.aggregateId row })
  else do
    let _ ← authorize db row.requestedBy row.workspaceId c.aggregateId true
    .ok (true, { db with reviewRuns := db.reviewRuns.put c.aggregateId (reserved row expected) })

/-- What `complete` goes on with after re-checking the requester's access. -/
def verdict (db : Db) (c : Claim) (row : ReviewRun) (result : Option Json) (code : Option Code) :
    Tx (Option Json × Option Code) :=
  match authorize db row.requestedBy row.workspaceId c.aggregateId true with
  | .ok _ => .ok (result, code)
  | .error f =>
    match f.appCode? with
    | some _ => .ok (none, some .accessRevoked)
    | none => .error f

def closed (now : Instant) (row : ReviewRun) (result : Option Json) (code : Option Code) :
    ReviewRun :=
  { row with
    status := if code.isSome then .failed else .completed
    errorCode := code
    finishedAt := some now
    result := result
    usageUncertain := code.isSome && decide (row.callAttempts ≠ 0) }

/-- `ReviewWorker.complete`. -/
def complete (db : Db) (c : Claim) (result : Option Json) (code : Option Code) (expired : Bool)
    (incoming outgoing : ℤ) : Tx Db := do
  let wid ← assertSome c.workspaceId
  let row ← getRow db wid c.aggregateId
  let row := metered row incoming outgoing
  if row.status.terminal then
    .ok { db with reviewRuns := db.reviewRuns.put c.aggregateId row }
  else do
    let (result, code) ← verdict db c row result code
    match Jobs.fence db.jobs db.now c expired with
    | none => .ok { db with reviewRuns := db.reviewRuns.put c.aggregateId row }
    | some job => do
      let job ← Jobs.finish db.now job code false 5
      .ok { db with
        jobs := db.jobs.put c.id job
        reviewRuns := db.reviewRuns.put c.aggregateId (closed db.now row result code) }

end ReviewWorker

end Prism
