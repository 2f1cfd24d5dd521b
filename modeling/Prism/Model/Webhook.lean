import Prism.Model.PullRequest

/-! Webhook ingestion and the worker that applies deliveries. -/

namespace Prism

namespace Webhook

/-- `repository.by_delivery`. -/
def byDelivery (db : Db) (deliveryId : String) : Option (UUID × WebhookDelivery) :=
  db.deliveries.find fun _ row => row.deliveryId = deliveryId

def deliveryMismatch : Failure :=
  .webhookRejected .webhookDeliveryMismatch

/-- The row inserted by `repository.add`. -/
def newDelivery (now : Instant) (event : Event) (repo : Option RepositorySnapshot) :
    WebhookDelivery where
  deliveryId := event.deliveryId
  event := event.event
  action := event.action
  installationId := event.installationId
  githubRepositoryId := event.repositoryId
  prNumber := event.number
  workspaceId := repo.map (·.workspaceId)
  repositoryConnectionId := repo.map (·.id)
  connectionGeneration := repo.map (·.connectionGeneration)
  affectedRepositoryIds := event.affected
  bodyDigest := event.digest
  status := .pending
  receivedAt := now
  processedAt := none
  errorCode := none

/-- The answer to a delivery that is already stored. -/
def duplicate (event : Event) (stored : WebhookDelivery) (db : Db) : Tx (ℕ × Db) :=
  if stored.bodyDigest ≠ event.digest ∨ stored.event ≠ event.event then .error deliveryMismatch
  else .ok (200, db)

/-- The repository a pull-request event is mapped to; `none` answers 204. -/
def target (db : Db) (event : Event) : Tx (Option (Option RepositorySnapshot)) :=
  if event.event = .pullRequest then do
    let gid ← assertSome event.repositoryId
    match mapped db event.installationId gid with
    | .error f =>
      match f.appCode? with
      | some _ => .ok none
      | none => .error f
    | .ok none => .ok none
    | .ok (some repo) => .ok (some (some repo))
  else .ok (some none)

/-- `receive`: the HTTP status and the database. `stale` says that the first
lookup ran before a concurrent call committed the row, so that only the insert
on conflict sees it. -/
def receive (db : Db) (event : Event) (stale : Bool) (did jid : UUID) : Tx (ℕ × Db) :=
  match (if stale then none else byDelivery db event.deliveryId) with
  | some (_, existing) => duplicate event existing db
  | none => do
    match ← target db event with
    | none => .ok (204, db)
    | some repo =>
      match byDelivery db event.deliveryId with
      | some (_, previous) => duplicate event previous db
      | none => do
        let deliveries ← insertRow db.deliveries did (newDelivery db.now event repo)
        let jobs ← Jobs.enqueue db.jobs db.now jid .processWebhook did (repo.map (·.workspaceId))
        .ok (202, { db with deliveries := deliveries, jobs := jobs })

end Webhook

namespace WebhookWorker

/-- The checks before the fence: a lost connection, or the repositories an
installation event suspends. -/
def prepare (db : Db) (row : WebhookDelivery) : Tx (Option Code × List UUID) :=
  match row.event with
  | .pullRequest => do
    let wid ← assertSome row.workspaceId
    let rid ← assertSome row.repositoryConnectionId
    let generation ← assertSome row.connectionGeneration
    match requireEvent db wid rid generation with
    | .ok _ => .ok (none, [])
    | .error f =>
      match f.appCode? with
      | some _ => .ok (some .connectionChanged, [])
      | none => .error f
  | .installation => .ok (none, lockAffected db row.installationId none row.receivedAt)
  | .installationRepositories =>
    .ok (none, lockAffected db row.installationId (some row.affectedRepositoryIds) row.receivedAt)

/-- The effect of a live delivery and the code that makes it retry. -/
def apply (db : Db) (row : WebhookDelivery) (targets : List UUID) (expired : Bool)
    (sid jid : UUID) : Tx (Option Code × Db) :=
  if expired then .ok (some .leaseExpired, db)
  else if row.event = .pullRequest then do
    let wid ← assertSome row.workspaceId
    let rid ← assertSome row.repositoryConnectionId
    let generation ← assertSome row.connectionGeneration
    let number ← assertSome row.prNumber
    let (sid, db) ← Sync.requestEventSync db wid rid generation number sid jid
    .ok (if sid.isNone then some .syncInProgress else none, db)
  else .ok (none, { db with connections := suspendLocked db.connections targets })

/-- The job of a delivery whose connection is lost: finished, then canceled. -/
def canceledJob (job : Job) : Job :=
  { job with
    state := .canceled
    attemptHistory := job.attemptHistory.modifyLast fun a =>
      { a with outcome := some .canceled } }

def canceled (now : Instant) (row : WebhookDelivery) (code : Option Code) : WebhookDelivery :=
  { row with status := .canceled, errorCode := code, processedAt := some now }

/-- The delivery after its job was finished with `code`. -/
def closed (now : Instant) (row : WebhookDelivery) (job : Job) (code : Option Code) :
    WebhookDelivery :=
  { row with
    status :=
      if job.state = .ready then .pending else if code.isSome then .failed else .processed
    errorCode := code
    processedAt := if job.state = .ready then none else some now }

/-- `WebhookWorker.execute`, one transaction. `sid` and `jid` identify the sync
run and the job it may create. -/
def execute (db : Db) (c : Claim) (expired : Bool) (sid jid : UUID) : Tx Db :=
  match db.deliveries.get c.aggregateId with
  | none => .ok db
  | some row => do
    let (code, targets) ← prepare db row
    match Jobs.fence db.jobs db.now c expired with
    | none => .ok db
    | some job =>
      if code.isSome then do
        let job ← Jobs.finish db.now job code false 5
        .ok { db with
          jobs := db.jobs.put c.id (canceledJob job)
          deliveries := db.deliveries.put c.aggregateId (canceled db.now row code) }
      else do
        let (code, db) ← apply db row targets expired sid jid
        let job ← Jobs.finish db.now job code code.isSome
          (if code = some .syncInProgress then 30 else 5)
        .ok { db with
          jobs := db.jobs.put c.id job
          deliveries := db.deliveries.put c.aggregateId (closed db.now row job code) }

end WebhookWorker

end Prism
