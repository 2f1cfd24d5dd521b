import Prism.Model.Access

/-! Connecting and disconnecting repositories, and the trusted repository events
of deliveries and sync workers. -/

namespace Prism

structure VerifiedRepository where
  githubRepositoryId : ℕ
  installationId : ℕ
  ownerLogin : String
  repositoryName : String
  isPrivate : Bool
  defaultBranch : Option String
  deriving DecidableEq, Repr

def repositoryExists : Failure :=
  .app ⟨.repositoryExists, "이미 연결된 저장소입니다.", .conflict⟩

/-- SHA-256 of the initial configuration in canonical JSON. -/
def initialConfigDigest : String :=
  "19dbe074a5bd87525ed43692b8d750501316d3fe6b07a970e75d87b1e25a54dc"

/-- The partial index `uq_repository_active_github` over the other rows. -/
def connectedElsewhere (db : Db) (rid : UUID) (githubRepositoryId : ℕ) : Bool :=
  db.connections.holds fun id r =>
    id ≠ rid && r.githubRepositoryId = githubRepositoryId &&
      (r.status = .active || r.status = .suspended)

/-- The row of a reconnected repository: a new generation, the last configuration. -/
def reconnected (now : Instant) (uid : UUID) (verified : VerifiedRepository)
    (row : RepositoryConnection) : RepositoryConnection :=
  { row with
    connectionGeneration := row.connectionGeneration + 1
    status := .active
    disconnectedAt := none
    connectedAt := now
    connectedBy := uid
    installationId := verified.installationId
    ownerLogin := verified.ownerLogin
    repositoryName := verified.repositoryName
    isPrivate := verified.isPrivate
    defaultBranch := verified.defaultBranch }

def newConnection (now : Instant) (uid wid cid : UUID) (verified : VerifiedRepository) :
    RepositoryConnection where
  workspaceId := wid
  githubRepositoryId := verified.githubRepositoryId
  installationId := verified.installationId
  ownerLogin := verified.ownerLogin
  repositoryName := verified.repositoryName
  isPrivate := verified.isPrivate
  defaultBranch := verified.defaultBranch
  status := .active
  connectionGeneration := 1
  currentConfigVersionId := cid
  connectedBy := uid
  connectedAt := now
  disconnectedAt := none
  lastSyncSuccessAt := none

def initialConfig (uid wid rid : UUID) : RuleConfigVersion where
  workspaceId := wid
  repositoryConnectionId := rid
  version := 1
  rules := []
  layerMappings := []
  ignoredPaths := []
  configDigest := initialConfigDigest
  createdBy := uid

/-- `repository.service.connect`; `rid` and `cid` are the fresh identifiers of a
first connection. Returns the identifier of the connection. -/
def connect (db : Db) (uid wid : UUID) (verified : VerifiedRepository) (rid cid : UUID) :
    Tx (UUID × Db) := do
  let _ ← requirePermission db uid wid .manage
  match db.connections.find (fun _ r =>
      r.workspaceId = wid && r.githubRepositoryId = verified.githubRepositoryId) with
  | some (id, row) =>
    if row.status ≠ .disconnected then .error repositoryExists
    else if connectedElsewhere db id verified.githubRepositoryId then .error .integrityError
    else .ok (id, { db with
      connections := db.connections.put id (reconnected db.now uid verified row) })
  | none =>
    if connectedElsewhere db rid verified.githubRepositoryId then .error .integrityError
    else do
      let connections ← insertRow db.connections rid (newConnection db.now uid wid cid verified)
      let configs ← insertRow db.configs cid (initialConfig uid wid rid)
      .ok (rid, { db with connections := connections, configs := configs })

def disconnected (now : Instant) (row : RepositoryConnection) : RepositoryConnection :=
  { row with status := .disconnected, disconnectedAt := some now }

/-- `RepositoryService.disconnect`. -/
def disconnect (db : Db) (uid wid rid : UUID) : Tx Db := do
  let row ← access db uid wid rid .manage false
  .ok { db with connections := db.connections.put rid (disconnected db.now row) }

/-! ## Repository events -/

/-- `RepositoryEvents.mapped`: the active connection a delivery belongs to. -/
def mapped (db : Db) (installation gid : ℕ) : Tx (Option RepositorySnapshot) :=
  match db.connections.find (fun _ r =>
      r.installationId = installation && r.githubRepositoryId = gid && r.status = .active) with
  | none => .ok none
  | some (rid, row) => do
    let repo ← requireEvent db row.workspaceId rid row.connectionGeneration
    .ok (some repo)

/-- `RepositoryEvents.lock_affected`: the active connections of an installation,
or those among `ids`, made before the event. -/
def lockAffected (db : Db) (installation : ℕ) (ids : Option (List ℕ)) (before : Instant) :
    List UUID :=
  let candidates := db.connections.select fun _ r =>
    r.installationId = installation && r.status = .active && decide (r.connectedAt ≤ before) &&
      match ids with
      | none => true
      | some ids => decide (r.githubRepositoryId ∈ ids)
  candidates.filterMap fun (id, candidate) =>
    match connectionIn db candidate.workspaceId id with
    | none => none
    | some row =>
      if row.status = .active ∧ row.installationId = installation ∧ row.connectedAt ≤ before then
        some id
      else none

/-- One iteration of `suspend_locked`. -/
def suspendOne (connections : Table UUID RepositoryConnection) (rid : UUID) :
    Table UUID RepositoryConnection :=
  match connections.get rid with
  | none => connections
  | some row =>
    if row.status = .active then connections.put rid { row with status := .suspended }
    else connections

/-- `RepositoryEvents.suspend_locked`. -/
def suspendLocked (connections : Table UUID RepositoryConnection) (ids : List UUID) :
    Table UUID RepositoryConnection :=
  ids.foldl suspendOne connections

end Prism
