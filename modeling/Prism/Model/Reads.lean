import Prism.Model.Documents
import Prism.Model.Listings

/-! The reads a member of a workspace can make: `get`, `history`, `listing` and `detail` of
the services, each in one transaction. -/

namespace Prism

open Keyset

/-- `order_by(created_at.desc(), id.desc())` -/
def newestKey {ρ : Type} (created : ρ → Instant) (e : UUID × ρ) : (Instant ×ₗ UUID)ᵒᵈ :=
  OrderDual.toDual (toLex (created e.2, e.1))

namespace Analysis

def get (db : Db) (uid wid aid : UUID) : Tx AnalysisRun :=
  authorized db uid wid aid false

def history (db : Db) (uid wid pid : UUID) : Tx (List (UUID × AnalysisRun)) := do
  let _ ← analysisSnapshot db uid wid pid
  .ok ((ordered (newestKey AnalysisRun.createdAt)
    (db.analysisRuns.select fun _ r => r.workspaceId = wid && r.prId = pid)).take 50)

end Analysis

namespace Review

def get (db : Db) (uid wid rid : UUID) : Tx ReviewRun :=
  authorize db uid wid rid false

/-- The results stay readable after the repository was disconnected. -/
def history (db : Db) (uid wid aid : UUID) (purpose : Purpose) : Tx (List (UUID × ReviewRun)) := do
  let _ ← Analysis.authorized db uid wid aid false
  .ok ((ordered (newestKey ReviewRun.createdAt) (db.reviewRuns.select fun _ r =>
    r.workspaceId = wid && r.analysisId = aid && r.purpose = purpose)).take 50)

end Review

namespace Sync

def detail (db : Db) (uid wid pid : UUID) : Tx PullRequest := do
  let _ ← requirePermission db uid wid .read
  match pullIn db.pullRequests wid pid with
  | none => .error missing
  | some row => do
    let _ ← requireRepository db uid wid row.repositoryConnectionId .read true
    .ok row

def status (db : Db) (uid wid rid sid : UUID) : Tx PullRequestSyncRun := do
  let _ ← requireRepository db uid wid rid .read false
  match (db.syncRuns.get sid).filter
      fun r => r.workspaceId = wid && r.repositoryConnectionId = rid with
  | none => .error missing
  | some row => .ok row

/-- The newest of the runs over the list of pull requests. -/
def latest (db : Db) (uid wid rid : UUID) : Tx (Option (UUID × PullRequestSyncRun)) := do
  let repo ← requireRepository db uid wid rid .read true
  .ok (ordered (newestKey PullRequestSyncRun.createdAt) (db.syncRuns.select fun _ r =>
    r.workspaceId = wid && r.repositoryConnectionId = rid &&
      r.connectionGeneration = repo.connectionGeneration &&
      r.mode ∈ [SyncMode.recent, SyncMode.page])).head?

end Sync

namespace Standards

variable (w : State)

/-- `store.version` -/
def versionOf (wid did : UUID) (number : ℕ) : Option (UUID × StandardVersion) :=
  (ordered Prod.fst (w.versions.select fun _ v =>
    v.workspaceId = wid && v.documentId = did && v.version = number)).head?

/-- `order_by(created_at, id)` -/
def documentKey (e : UUID × StandardDocument) : Instant ×ₗ UUID :=
  toLex (e.2.createdAt, e.1)

/-- The documents of a repository, each with its current version. -/
def listDocuments (uid wid repo : UUID) : Tx (List View) := do
  let _ ← access w uid wid repo false
  let documents := ordered documentKey (w.documents.select fun _ d =>
    d.workspaceId = wid && d.repositoryConnectionId = repo)
  .ok (documents.filterMap fun d =>
    (versionOf w wid d.1 d.2.currentVersion).map fun v => view d.1 d.2 v.1 v.2)

/-- `order_by(version.desc())`. Versions of one document have different numbers. -/
def versionKey (e : UUID × StandardVersion) : (ℕ ×ₗ UUID)ᵒᵈ :=
  OrderDual.toDual (toLex (e.2.version, e.1))

def history (uid wid repo did : UUID) : Tx (List View) := do
  let _ ← access w uid wid repo false
  let doc ← document w wid repo did
  .ok ((ordered versionKey (w.versions.select fun _ v =>
    v.workspaceId = wid && v.documentId = did)).map fun v => view did doc v.1 v.2)

def get (uid wid repo did : UUID) (number : ℕ) : Tx View := do
  let _ ← access w uid wid repo false
  let doc ← document w wid repo did
  match versionOf w wid did number with
  | none => .error (error .standardNotFound "문서 버전을 찾을 수 없어요." .notFound)
  | some v => .ok (view did doc v.1 v.2 true)

end Standards

/-! ## All reads -/

/-- What a caller can ask for in a workspace. -/
inductive Read where
  | analysis (aid : UUID)
  | analyses (pid : UUID)
  | findings (aid : UUID) (category : Option Category) (cursor : Option UUID)
  | files (aid : UUID) (cursor : Option UUID)
  | review (rid : UUID)
  | reviews (aid : UUID) (purpose : Purpose)
  | pulls (rid : UUID) (cursor : Option UUID)
  | pull (pid : UUID)
  | sync (rid sid : UUID)
  | latestSync (rid : UUID)
  | documents (repo : UUID)
  | versions (repo did : UUID)
  | document (repo did : UUID) (number : ℕ)
  deriving DecidableEq, Repr

inductive Shown where
  | analysis (row : AnalysisRun)
  | analyses (rows : List (UUID × AnalysisRun))
  | findings (page : List Finding × Option UUID)
  | files (page : List AnalysisFileResult × Option UUID)
  | review (row : ReviewRun)
  | reviews (rows : List (UUID × ReviewRun))
  | pulls (page : List (UUID × PullRequest) × Option UUID)
  | pull (row : PullRequest)
  | sync (row : PullRequestSyncRun)
  | latestSync (row : Option (UUID × PullRequestSyncRun))
  | documents (views : List Standards.View)
  | document (v : Standards.View)

/-- What a read of a user in a workspace answers. -/
def read (w : Standards.State) (uid wid : UUID) : Read → Tx Shown
  | .analysis aid => (Analysis.get w.db uid wid aid).map .analysis
  | .analyses pid => (Analysis.history w.db uid wid pid).map .analyses
  | .findings aid category cursor =>
    (Analysis.findingsPage w.db uid wid aid category cursor).map .findings
  | .files aid cursor => (Analysis.filesPage w.db uid wid aid cursor).map .files
  | .review rid => (Review.get w.db uid wid rid).map .review
  | .reviews aid purpose => (Review.history w.db uid wid aid purpose).map .reviews
  | .pulls rid cursor => (Sync.pullsPage w.db uid wid rid cursor).map .pulls
  | .pull pid => (Sync.detail w.db uid wid pid).map .pull
  | .sync rid sid => (Sync.status w.db uid wid rid sid).map .sync
  | .latestSync rid => (Sync.latest w.db uid wid rid).map .latestSync
  | .documents repo => (Standards.listDocuments w uid wid repo).map .documents
  | .versions repo did => (Standards.history w uid wid repo did).map .documents
  | .document repo did number => (Standards.get w uid wid repo did number).map .document

end Prism
