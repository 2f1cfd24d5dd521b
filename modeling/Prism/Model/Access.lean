import Prism.Model.Database

/-! Authorization: workspace membership, repository connections and the snapshots
that are only readable through them. Nothing here writes. -/

namespace Prism

/-! ## Users and workspaces -/

def userUnavailable : Failure :=
  .app ⟨.userUnavailable, "사용할 수 없는 계정입니다.", .unauthorized⟩

def workspaceMissing : Failure :=
  .app ⟨.workspaceNotFound, "팀 또는 리소스를 찾을 수 없습니다.", .notFound⟩

def permissionDenied : Failure :=
  .app ⟨.permissionDenied, "이 작업을 수행할 권한이 없습니다.", .forbidden⟩

inductive Permission where
  | read | sync | manage | owner
  deriving DecidableEq, Repr

def allowed (role : Role) : Permission → Bool
  | .read => role ∈ [Role.owner, Role.admin, Role.member]
  | .sync => role ∈ [Role.owner, Role.admin, Role.member]
  | .manage => role ∈ [Role.owner, Role.admin]
  | .owner => role ∈ [Role.owner]

/-- `UserAPI.get_active_user`. -/
def getActiveUser (db : Db) (uid : UUID) : Tx User :=
  match db.users.get uid with
  | some user => if user.status = .active then .ok user else .error userUnavailable
  | none => .error userUnavailable

/-- `WorkspaceAccess.lock_system`: the workspace row exists and is active. -/
def lockSystem (db : Db) (wid : UUID) : Bool :=
  db.workspaces.get wid = some .active

/-- `WorkspaceAccess.require_permission`. -/
def requirePermission (db : Db) (uid wid : UUID) (permission : Permission) :
    Tx WorkspaceMember := do
  let _ ← getActiveUser db uid
  match db.members.get (wid, uid) with
  | none => .error workspaceMissing
  | some member =>
    if lockSystem db wid = false ∨ member.status ≠ .active then .error workspaceMissing
    else if allowed member.role permission = false then .error permissionDenied
    else .ok member

/-! ## Repository connections -/

structure RepositorySnapshot where
  id : UUID
  workspaceId : UUID
  githubRepositoryId : ℕ
  installationId : ℕ
  ownerLogin : String
  repositoryName : String
  status : ConnectionStatus
  connectionGeneration : ℕ
  lastSyncSuccessAt : Option Instant
  deriving DecidableEq, Repr

def snapshot (rid : UUID) (r : RepositoryConnection) : RepositorySnapshot where
  id := rid
  workspaceId := r.workspaceId
  githubRepositoryId := r.githubRepositoryId
  installationId := r.installationId
  ownerLogin := r.ownerLogin
  repositoryName := r.repositoryName
  status := r.status
  connectionGeneration := r.connectionGeneration
  lastSyncSuccessAt := r.lastSyncSuccessAt

def repositoryNotFound : Failure :=
  .app ⟨.repositoryNotFound, "저장소를 찾을 수 없습니다.", .notFound⟩

def repositoryInactive : Failure :=
  .app ⟨.repositoryInactive, "저장소를 다시 연결해 주세요.", .conflict⟩

def connectionChanged : Failure :=
  .app ⟨.connectionChanged, "연결이 변경되었습니다.", .conflict⟩

/-- `repository.get`: the connection with this id in this workspace. -/
def connectionIn (db : Db) (wid rid : UUID) : Option RepositoryConnection :=
  (db.connections.get rid).filter fun r => r.workspaceId = wid

/-- `repository.service.access`. -/
def access (db : Db) (uid wid rid : UUID) (permission : Permission) (active : Bool) :
    Tx RepositoryConnection := do
  let _ ← requirePermission db uid wid permission
  match connectionIn db wid rid with
  | none => .error repositoryNotFound
  | some r => if active ∧ r.status ≠ .active then .error repositoryInactive else .ok r

/-- `RepositoryAccess.require`. -/
def requireRepository (db : Db) (uid wid rid : UUID) (permission : Permission) (active : Bool) :
    Tx RepositorySnapshot := do
  let r ← access db uid wid rid permission active
  .ok (snapshot rid r)

def configUnsupported : Failure :=
  .app ⟨.configUnsupported, "이 분석기의 기본 규칙 설정만 지원합니다.", .conflict⟩

/-- `RepositoryAccess.analysis_config`. -/
def analysisConfig (db : Db) (uid wid rid : UUID) (version : Option UUID) :
    Tx (UUID × String × List String) := do
  let row ← access db uid wid rid .sync true
  let id := version.getD row.currentConfigVersionId
  match db.configs.get id with
  | none => .error configUnsupported
  | some config =>
    if config.workspaceId ≠ wid ∨ config.repositoryConnectionId ≠ rid ∨ config.rules ≠ [] ∨
        config.layerMappings ≠ [] then
      .error configUnsupported
    else .ok (id, config.configDigest, config.ignoredPaths)

/-- `RepositoryEvents.require`. -/
def requireEvent (db : Db) (wid rid : UUID) (generation : ℕ) : Tx RepositorySnapshot :=
  match connectionIn db wid rid with
  | none => .error connectionChanged
  | some r =>
    if lockSystem db wid = false ∨ r.status ≠ .active ∨ r.connectionGeneration ≠ generation then
      .error connectionChanged
    else .ok (snapshot rid r)

/-! ## Pull requests and analyses -/

def missing : Failure :=
  .app ⟨.notFound, "리소스를 찾을 수 없습니다.", .notFound⟩

/-- `analysis_snapshot`: a pull request of the workspace whose repository the
user may synchronize. -/
def analysisSnapshot (db : Db) (uid wid pid : UUID) : Tx PullRequest := do
  let _ ← requirePermission db uid wid .sync
  match (db.pullRequests.get pid).filter (fun pr => pr.workspaceId = wid) with
  | none => .error missing
  | some row =>
    let _ ← requireRepository db uid wid row.repositoryConnectionId .sync true
    .ok row

namespace Analysis

def error (code : Code) (kind : ErrorKind) : Failure :=
  .app ⟨code, "분석 요청 또는 접근 상태를 확인해 주세요.", kind⟩

def findRun (db : Db) (wid aid : UUID) : Tx AnalysisRun :=
  match db.analysisRuns.get aid with
  | some row => if row.workspaceId = wid then .ok row else .error (error .analysisNotFound .notFound)
  | none => .error (error .analysisNotFound .notFound)

def authorized (db : Db) (uid wid aid : UUID) (active : Bool) : Tx AnalysisRun := do
  let _ ← requirePermission db uid wid .read
  let row ← findRun db wid aid
  let repo ← requireRepository db uid wid row.repositoryConnectionId .read active
  if active ∧ repo.connectionGeneration ≠ row.connectionGeneration then
    .error (error .connectionChanged .conflict)
  else .ok row

end Analysis

/-- What `review_snapshot` exports to the review domain. The findings it also
selects are part of the payload, not of the authorization. -/
structure ReviewSnapshot where
  id : UUID
  prId : UUID
  repositoryId : UUID
  connectionGeneration : ℕ
  baseSha : String
  headSha : String
  configVersionId : UUID
  deriving DecidableEq, Repr

def reviewSnapshotOf (aid : UUID) (row : AnalysisRun) : ReviewSnapshot where
  id := aid
  prId := row.prId
  repositoryId := row.repositoryConnectionId
  connectionGeneration := row.connectionGeneration
  baseSha := row.baseSha
  headSha := row.headSha
  configVersionId := row.configVersionId

def reviewSnapshot (db : Db) (uid wid aid : UUID) : Tx ReviewSnapshot := do
  let row ← Analysis.authorized db uid wid aid true
  if row.status ≠ .completed then .error (Analysis.error .analysisNotCompleted .conflict)
  else .ok (reviewSnapshotOf aid row)

/-! ## Team documents and reviews -/

def standardsUnavailable : Failure :=
  .app ⟨.standardsUnavailable,
    "활성 팀 문서를 등록하거나 삭제·비활성화 여부를 확인해 주세요.", .conflict⟩

/-- The versions `standards.api.snapshot` returns: the current ones, or the given ones. -/
def standardsSnapshot (db : Db) (wid repo : UUID) (ids : Option (List UUID)) : Tx (List UUID) :=
  let rows := db.standards.filter fun v =>
    v.workspaceId = wid && v.repositoryConnectionId = repo && v.documentActive &&
      match ids with
      | none => v.current
      | some ids => decide (v.id ∈ ids)
  if rows = [] ∨ (ids.map (·.length)).getD rows.length ≠ rows.length then
    .error standardsUnavailable
  else .ok (rows.map (·.id))

namespace Review

def error (code : Code) (kind : ErrorKind) : Failure :=
  .app ⟨code, "AI 리뷰 요청·권한·실행 한도를 확인해 주세요.", kind⟩

def getRow (db : Db) (wid rid : UUID) : Tx ReviewRun :=
  match db.reviewRuns.get rid with
  | some row => if row.workspaceId = wid then .ok row else .error (error .reviewNotFound .notFound)
  | none => .error (error .reviewNotFound .notFound)

def authorize (db : Db) (uid wid rid : UUID) (execute : Bool) : Tx ReviewRun := do
  let _ ← requirePermission db uid wid (if execute then .owner else .read)
  let row ← getRow db wid rid
  let repo ← requireRepository db uid wid row.repositoryConnectionId .read execute
  if execute ∧ repo.connectionGeneration ≠ row.connectionGeneration then
    .error (error .accessRevoked .conflict)
  else if execute ∧ row.purpose = .standards then do
    let _ ← standardsSnapshot db wid row.repositoryConnectionId (some row.standardVersions)
    .ok row
  else .ok row

end Review

end Prism
