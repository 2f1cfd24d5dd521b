import Mathlib.Data.String.Basic
import Prism.Foundation.Keyset
import Prism.Model.Analysis

/-! The routes that list rows page by page, and the findings a review is given. -/

namespace Prism

open Keyset

/-- One row more than a page has is asked for: the page, and the row to go on behind. -/
def pageOf {α : Type} (n : ℕ) (id : α → UUID) (rows : List α) : List α × Option UUID :=
  (items n rows, (next n rows).map id)

namespace Analysis

/-! ## `AnalysisService.results` -/

/-- `ranks` -/
def severityRank : Severity → ℕ
  | .critical => 0
  | .error => 1
  | .warning => 2
  | .info => 3

/-- `order_by(rank, model.id)` -/
def findingKey (f : Finding) : ℕ ×ₗ UUID :=
  toLex (severityRank f.entry.severity, f.id)

def invalidCursor : Failure :=
  error .invalidCursor .invalidInput

/-- The findings of an analysis in a category, or in any. -/
def matching (db : Db) (wid aid : UUID) (category : Option Category) : List Finding :=
  db.findings.filter fun f => f.workspaceId = wid && f.analysisId = aid &&
    category.all fun c => f.entry.category = c

def findingsQuery (db : Db) (wid aid : UUID) (category : Option Category) (cursor : Option UUID) :
    Tx (List Finding) :=
  let rows := matching db wid aid category
  match cursor with
  | none => .ok ((ordered findingKey rows).take 101)
  | some cursor =>
    match db.findings.find? fun f => f.workspaceId = wid && f.analysisId = aid && f.id = cursor with
    | none => .error invalidCursor
    | some previous =>
      let position := severityRank previous.entry.severity
      .ok ((ordered findingKey (rows.filter fun f =>
        decide (position < severityRank f.entry.severity) ||
          severityRank f.entry.severity = position && decide (cursor < f.id))).take 101)

def filesQuery (db : Db) (wid aid : UUID) (cursor : Option UUID) : List AnalysisFileResult :=
  let rows := db.fileResults.filter fun r => r.workspaceId = wid && r.analysisId = aid
  match cursor with
  | none => (ordered AnalysisFileResult.id rows).take 101
  | some cursor =>
    (ordered AnalysisFileResult.id (rows.filter fun r => decide (cursor < r.id))).take 101

/-- `GET /analyses/{aid}/findings` -/
def findingsPage (db : Db) (uid wid aid : UUID) (category : Option Category)
    (cursor : Option UUID) : Tx (List Finding × Option UUID) := do
  let _ ← authorized db uid wid aid false
  let rows ← findingsQuery db wid aid category cursor
  .ok (pageOf 100 Finding.id rows)

/-- `GET /analyses/{aid}/files` -/
def filesPage (db : Db) (uid wid aid : UUID) (cursor : Option UUID) :
    Tx (List AnalysisFileResult × Option UUID) := do
  let _ ← authorized db uid wid aid false
  .ok (pageOf 100 AnalysisFileResult.id (filesQuery db wid aid cursor))

/-! ## The findings of `review_snapshot` -/

/-- What a review is told of a finding. -/
structure SnapshotFinding where
  ruleId : String
  severity : Severity
  language : Option Language
  message : String
  deriving DecidableEq, Repr

def snapshotFinding (f : Finding) : SnapshotFinding where
  ruleId := f.entry.ruleId
  severity := f.entry.severity
  language := f.entry.language
  message := f.entry.sanitizedMessage

/-- Those of an analysis. -/
def findingsOf (db : Db) (wid aid : UUID) : List Finding :=
  db.findings.filter fun f => f.workspaceId = wid && f.analysisId = aid

/-- The findings `review_snapshot` takes, of the first thousand by their fingerprint. -/
def selected (db : Db) (wid aid : UUID) : List Finding :=
  let findings := (ordered (fun f : Finding => f.entry.fingerprint) (findingsOf db wid aid)).take 1000
  let sorted := findings.mergeSort fun f g =>
    decide (severityRank f.entry.severity ≤ severityRank g.entry.severity)
  (sorted.filter fun f => f.entry.category ≠ .security).take 10

/-- `review_snapshot`, with its findings. -/
def reviewSnapshotFindings (db : Db) (uid wid aid : UUID) :
    Tx (ReviewSnapshot × List SnapshotFinding) := do
  let snapshot ← reviewSnapshot db uid wid aid
  .ok (snapshot, (selected db wid aid).map snapshotFinding)

end Analysis

namespace Sync

/-! ## The pull requests of a repository -/

/-- `order_by(github_updated_at.desc(), id.desc())` -/
def pullKey (e : UUID × PullRequest) : (Instant ×ₗ UUID)ᵒᵈ :=
  OrderDual.toDual (toLex (e.2.githubUpdatedAt, e.1))

/-- `repository.get` -/
def pullIn (pulls : Table UUID PullRequest) (wid pid : UUID) : Option PullRequest :=
  (pulls.get pid).filter fun pr => pr.workspaceId = wid

def pullsOf (pulls : Table UUID PullRequest) (wid rid : UUID) : List (UUID × PullRequest) :=
  pulls.select fun _ pr => pr.workspaceId = wid && pr.repositoryConnectionId = rid

/-- `repository.listing` -/
def listing (pulls : Table UUID PullRequest) (wid rid : UUID) (cursor : Option UUID) :
    List (UUID × PullRequest) :=
  match cursor with
  | none => (ordered pullKey (pullsOf pulls wid rid)).take 51
  | some cursor =>
    match pullIn pulls wid cursor with
    | none => []
    | some anchor =>
      if anchor.repositoryConnectionId ≠ rid then []
      else
        (ordered pullKey ((pullsOf pulls wid rid).filter fun e =>
          decide (toLex (e.2.githubUpdatedAt, e.1) < toLex (anchor.githubUpdatedAt, cursor)))).take 51

/-- `GET /repositories/{rid}/pull-requests` -/
def pullsPage (db : Db) (uid wid rid : UUID) (cursor : Option UUID) :
    Tx (List (UUID × PullRequest) × Option UUID) := do
  let _ ← requireRepository db uid wid rid .read true
  .ok (pageOf 50 Prod.fst (listing db.pullRequests wid rid cursor))

end Sync

end Prism
