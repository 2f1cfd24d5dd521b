import Prism.Foundation.Transition
import Prism.Model.Access
import Prism.Model.Standards

/-! The team documents of a repository and their versions. Every write holds the lock of
the workspace from its authorization to its end. -/

namespace Prism.Standards

structure StandardDocument where
  workspaceId : UUID
  repositoryConnectionId : UUID
  createdBy : UUID
  currentVersion : ℕ
  active : Bool
  createdAt : Instant
  deriving DecidableEq, Repr

/-- `body.model_dump(exclude={"title", "kind", "content", "expected_version"})`. -/
structure Config where
  includes : List (List Char)
  excludes : List (List Char)
  required : Bool
  rules : List Rule
  deriving DecidableEq, Repr

structure StandardVersion where
  workspaceId : UUID
  documentId : UUID
  version : ℕ
  title : List Char
  kind : DocumentKind
  content : List Char
  digest : List Char
  config : Config
  sections : List Section
  createdAt : Instant
  deriving DecidableEq, Repr

structure State where
  db : Db
  documents : Table UUID StandardDocument
  versions : Table UUID StandardVersion

def State.empty : State :=
  ⟨.empty 0, ∅, ∅⟩

/-- What the service answers about a version; the content and its sections in full only. -/
structure View where
  id : UUID
  versionId : UUID
  version : ℕ
  currentVersion : ℕ
  active : Bool
  title : List Char
  kind : DocumentKind
  createdAt : Instant
  digest : List Char
  sectionCount : ℕ
  config : Config
  full : Option (List Char × List Section)
  deriving DecidableEq, Repr

def view (did : UUID) (doc : StandardDocument) (vid : UUID) (v : StandardVersion)
    (full : Bool := false) : View where
  id := did
  versionId := vid
  version := v.version
  currentVersion := doc.currentVersion
  active := doc.active
  title := v.title
  kind := v.kind
  createdAt := v.createdAt
  digest := v.digest
  sectionCount := v.sections.length
  config := v.config
  full := if full then some (v.content, v.sections) else none

def error (code : Code) (message : String) (kind : ErrorKind := .conflict) : Failure :=
  .app ⟨code, message, kind⟩

def DocumentInput.config (body : DocumentInput) : Config where
  includes := body.includes
  excludes := body.excludes
  required := body.required
  rules := body.rules

/-- `digest`, by a hash function: every field but the expected version. -/
def digest (sha256 : List Char → List Char) (body : DocumentInput) : List Char :=
  match body.toJson with
  | .obj members =>
    sha256 ((Json.obj (members.filter fun m => m.1 ≠ "expected_version".toList)).print Json.compact)
  | _ => []

section Store

variable (w : State)

/-- `store.count`. -/
def count (wid repo : UUID) : ℕ :=
  (w.documents.select fun _ d => d.workspaceId = wid && d.repositoryConnectionId = repo).length

/-- `document`: the document of this repository, or an error. -/
def document (wid repo did : UUID) : Tx StandardDocument :=
  match (w.documents.get did).filter
      fun d => d.workspaceId = wid && d.repositoryConnectionId = repo with
  | none => .error (error .standardNotFound "문서를 찾을 수 없어요." .notFound)
  | some doc => .ok doc

/-- Insert a version past `uq_standard_revision`. -/
def insertVersion (versions : Table UUID StandardVersion) (vid : UUID) (v : StandardVersion) :
    Tx (Table UUID StandardVersion) :=
  if versions.holds fun _ u => u.documentId = v.documentId && u.version = v.version then
    .error .integrityError
  else insertRow versions vid v

end Store

section Operations

variable (w : State)

def access (uid wid repo : UUID) (write : Bool) : Tx Unit := do
  let _ ← requirePermission w.db uid wid (if write then .owner else .read)
  let _ ← requireRepository w.db uid wid repo .read write
  .ok ()

/-- The document a save writes to: a new one, or the next version of a known one. -/
def nextDocument (uid wid repo : UUID) (expected : ℤ) (did : Option UUID) (fresh : UUID)
    (now : Instant) : Tx (UUID × StandardDocument × Table UUID StandardDocument) :=
  match did with
  | none =>
    if 8 ≤ count w wid repo then
      .error (error .standardLimit "저장소에는 문서를 최대 8개 등록할 수 있어요.")
    else if expected ≠ 0 then .error (error .standardConflict "문서 버전을 확인해 주세요.")
    else do
      let doc : StandardDocument :=
        { workspaceId := wid
          repositoryConnectionId := repo
          createdBy := uid
          currentVersion := 1
          active := true
          createdAt := now }
      let documents ← insertRow w.documents fresh doc
      .ok (fresh, doc, documents)
  | some did => do
    let doc ← document w wid repo did
    if expected ≠ doc.currentVersion then
      .error (error .standardConflict "다른 곳에서 문서가 바뀌었어요. 다시 열어 주세요.")
    else if 20 ≤ doc.currentVersion then
      .error (error .standardLimit "문서당 최대 20개 버전을 보관할 수 있어요.")
    else
      let doc := { doc with currentVersion := doc.currentVersion + 1 }
      .ok (did, doc, w.documents.put did doc)

def save (sha256 : List Char → List Char) (uid wid repo : UUID) (body : DocumentInput)
    (did : Option UUID) (fresh vid : UUID) (now : Instant) : Tx (View × State) := do
  let _ ← access w uid wid repo true
  let (did, doc, documents) ← nextDocument w uid wid repo body.expectedVersion did fresh now
  let version : StandardVersion :=
    { workspaceId := wid
      documentId := did
      version := doc.currentVersion
      title := Text.strip body.title
      kind := body.kind
      content := body.content
      digest := digest sha256 body
      config := body.config
      sections := indexDocument body.content
      createdAt := now }
  let versions ← insertVersion w.versions vid version
  .ok (view did doc vid version true, { w with documents, versions })

/-- `StandardsService.state`. -/
def activate (uid wid repo did : UUID) (active : Bool) (expected : ℤ) : Tx State := do
  let _ ← access w uid wid repo true
  let doc ← document w wid repo did
  if doc.currentVersion ≠ expected then
    .error (error .standardConflict "문서가 바뀌었어요. 다시 열어 주세요.")
  else .ok { w with documents := w.documents.put did { doc with active } }

def remove (uid wid repo did : UUID) (expected : ℤ) : Tx State := do
  let _ ← access w uid wid repo true
  let doc ← document w wid repo did
  if doc.currentVersion ≠ expected then
    .error (error .standardConflict "문서가 바뀌었어요. 다시 열어 주세요.")
  else .ok { w with
    versions := w.versions.discard fun _ v =>
      v.workspaceId = doc.workspaceId && v.documentId = did
    documents := w.documents.remove did }

end Operations

inductive Reply where
  | done
  | saved (v : View)
  | refused (failure : Failure)
  deriving DecidableEq, Repr

/-- What the environment can do next. -/
inductive Action where
  | user (uid : UUID) (user : User)
  | activity (wid : UUID) (status : Activity)
  | member (wid uid : UUID) (m : WorkspaceMember)
  | connection (rid : UUID) (r : RepositoryConnection)
  | save (uid wid repo : UUID) (body : DocumentInput) (did : Option UUID) (fresh vid : UUID)
      (now : Instant)
  | activate (uid wid repo did : UUID) (active : Bool) (expected : ℤ)
  | remove (uid wid repo did : UUID) (expected : ℤ)
  deriving DecidableEq, Repr

/-- A connection stays in its workspace. -/
def enabled (a : Action) (w : State) : Prop :=
  match a with
  | .connection rid r => (w.db.connections.get rid).all (·.workspaceId = r.workspaceId) = true
  | _ => True

instance (a : Action) (w : State) : Decidable (enabled a w) :=
  match a with
  | .connection _ _ => inferInstanceAs (Decidable (_ = _))
  | .user _ _ | .activity _ _ | .member _ _ _ | .save _ _ _ _ _ _ _ _ | .activate _ _ _ _ _ _
  | .remove _ _ _ _ _ => inferInstanceAs (Decidable True)

/-- A transaction that raises is rolled back. -/
def State.commit (w : State) : Tx (Reply × State) → Reply × State
  | .ok result => result
  | .error failure => (.refused failure, w)

def step (sha256 : List Char → List Char) (a : Action) (w : State) : Reply × State :=
  match a with
  | .user uid user => (.done, { w with db := { w.db with users := w.db.users.put uid user } })
  | .activity wid status =>
    (.done, { w with db := { w.db with workspaces := w.db.workspaces.put wid status } })
  | .member wid uid m =>
    (.done, { w with db := { w.db with members := w.db.members.put (wid, uid) m } })
  | .connection rid r =>
    (.done, { w with db := { w.db with connections := w.db.connections.put rid r } })
  | .save uid wid repo body did fresh vid now =>
    w.commit ((save w sha256 uid wid repo body did fresh vid now).map fun (v, w) => (.saved v, w))
  | .activate uid wid repo did active expected =>
    w.commit ((activate w uid wid repo did active expected).map fun w => (.done, w))
  | .remove uid wid repo did expected =>
    w.commit ((remove w uid wid repo did expected).map fun w => (.done, w))

/-- A run of the service. -/
abbrev Run (sha256 : List Char → List Char) :=
  Transition.Exec (step sha256) enabled State.empty

end Prism.Standards
