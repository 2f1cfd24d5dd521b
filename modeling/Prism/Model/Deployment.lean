import Prism.Foundation.JsonReader
import Prism.Foundation.Procedure
import Prism.Foundation.Text
import Prism.Foundation.Transition
import Prism.Model.Exception

/-! The entry point of a deployment on the host, `deployment/deploy_ec2.py`. Docker is an
environment that may answer anything to the commands so far, or fail. -/

namespace Prism.Deployment

def repository : String :=
  "ghcr.io/oso7865-ship-it/prism-backend"

def source : String :=
  "https://github.com/oso7865-ship-it/Prism-Backend"

/-- The exceptions, as far as handlers tell them apart. -/
inductive Exception where
  | deploy (code : String)
  | os | value | attribute
  | other
  deriving DecidableEq, Repr

/-- What a deployment is asked for. -/
structure Request where
  image : String
  revision : String
  sequence : ℤ
  deriving DecidableEq, Repr

/-- `datetime.fromisoformat` of a configured text. -/
inductive Verified where
  | unreadable
  | naive
  | aware (t : Instant)
  deriving DecidableEq, Repr

structure Config where
  composeFile : String
  migrationPolicy : String
  backupRestoreVerifiedAt : Option Verified
  readinessUrl : String
  deriving DecidableEq, Repr

/-- The heads of the database and of an image, past the checks of `Docker.schema`. -/
structure Schema where
  current : List (List Char)
  target : List (List Char)
  few : current.length ≤ 1
  one : target.length = 1
  deriving DecidableEq, Repr

inductive Status where
  | running | success | failed
  deriving DecidableEq, Repr

inductive Rollback where
  | blockedSchemaChanged | restoredPreviousImage | failedRequiresOperator
  deriving DecidableEq, Repr

inductive Stage where
  | prepare | migration | rollout | complete
  deriving DecidableEq, Repr

/-- The record of an attempt. -/
structure Record where
  sequence : ℤ
  image : String
  revision : String
  status : Status
  stage : Stage
  startedAt : Instant
  rollback : Option Rollback := none
  schema : Option (List (List Char)) := none
  previousImage : Option String := none
  deriving DecidableEq, Repr

/-- `attempt.json` and `current.json`. -/
structure Files where
  attempt : Option Record
  current : Option Record
  deriving DecidableEq, Repr

/-- A command line of Docker, with the image in its environment. -/
structure Command where
  args : List String
  image : String
  deriving DecidableEq, Repr

/-- What a deployment did, as its log tells it. -/
inductive Call where
  | pull (image revision : String)
  | preflight (image : String)
  | runningImage (image : String) (found : Option String)
  | schema (image : String) (value : Schema)
  | migrate (image : String)
  | start (image : String)
  | healthy (image : String)
  | failed
  | published (record : Record)
  deriving DecidableEq, Repr

/-- The files, the variables of `execute`, and what was done so far, the newest first. -/
structure Machine where
  files : Files
  record : Option Record
  previous : Option String
  before : Option Schema
  swapped : Bool
  commands : List Command
  writes : ℕ
  log : List Call

def Machine.begin (files : Files) : Machine where
  files := files
  record := none
  previous := none
  before := none
  swapped := false
  commands := []
  writes := 0
  log := []

/-- An answer of the readiness URL. -/
structure Response where
  status : ℕ
  url : String
  body : String
  deriving DecidableEq, Repr

/-- Everything outside: the lock, Docker, the readiness URL at each poll before the
deadline, the writes of the state files, and the clock. -/
structure Environment where
  lock : Except Exception Unit
  docker : List Command → Except Exception String
  polls : List Command → List (Except Exception Response)
  store : ℕ → Except Exception Unit
  started : Instant
  now : Instant

abbrev Deploy := Procedure Machine Exception

open Procedure

/-- `re.fullmatch(re.escape(REPOSITORY) + r"@sha256:[0-9a-f]{64}", image)`. -/
def isImage (image : String) : Bool :=
  match Text.after (repository ++ "@sha256:").toList image.toList with
  | none => false
  | some hash => hash.length = 64 && hash.all fun c => c.isDigit || 'a' ≤ c && c ≤ 'f'

def isRevision (revision : String) : Bool :=
  revision.toList.length = 40 && revision.toList.all fun c => c.isDigit || 'a' ≤ c && c ≤ 'f'

def identity (req : Request) : Deploy Unit := do
  assert (isImage req.image = true) (.deploy "INVALID_IMAGE")
  assert (isRevision req.revision = true) (.deploy "INVALID_REVISION")
  assert (1 ≤ req.sequence ∧ req.sequence < 9007199254740992) (.deploy "INVALID_SEQUENCE")

def note (c : Call) : Deploy Unit :=
  write fun m => { m with log := c :: m.log }

/-- Change the record of the attempt. -/
def amend (f : Record → Record) : Deploy Unit :=
  write fun m => { m with record := m.record.map f }

section Docker

variable (cfg : Config) (env : Environment) (sequence : ℤ)

/-- `Docker.run`: the output of a command. -/
def run (args : List String) (image : String) : Deploy String := do
  write fun m => { m with commands := ⟨args, image⟩ :: m.commands }
  let commands ← read (·.commands)
  give (env.docker commands)

def compose (args : List String) (image : String) : Deploy String :=
  run env (["compose", "--env-file", "/dev/null", "--project-name", "prism", "-f",
    cfg.composeFile] ++ args) image

def taskName : String :=
  "prism-deploy-task-" ++ toString sequence

/-- What is left of a task is removed, as far as that is possible. -/
def removeTask (image : String) : Deploy Unit :=
  attempt
    (do
      let _ ← run env ["rm", "-f", taskName sequence] image
      pure ())
    fun
      | .deploy _ => pure ()
      | e => raise e

/-- A one-shot task, which is removed in any case. -/
def task (args : List String) (image : String) : Deploy String :=
  ensure
    (compose cfg env
      (["run", "--rm", "--no-deps", "--name", taskName sequence, "api"] ++ args) image)
    (removeTask env sequence image)

/-- `json.loads`. -/
def loads (text : String) : Deploy Json :=
  give (match Json.loads text.toList with
    | some j => .ok j
    | none => .error .value)

/-- `value == text`, for a value that may be missing. -/
def isText (text : String) : Option Json → Bool
  | some (.str t) => t = text.toList
  | _ => false

/-- The labels name this revision and this repository. -/
def provenance (revision : String) (labels : Json) : Bool :=
  match labels with
  | .obj ms =>
    isText revision (Json.member? ms "org.opencontainers.image.revision".toList) &&
      isText source (Json.member? ms "org.opencontainers.image.source".toList)
  | _ => false

def pull (image revision : String) : Deploy Unit := do
  note (.pull image revision)
  let _ ← run env ["pull", image] image
  let text ←
    run env ["image", "inspect", "--format", "\x7b\x7bjson .Config.Labels\x7d\x7d", image] image
  let labels ← loads text
  assert (provenance revision labels = true) (.deploy "IMAGE_PROVENANCE_MISMATCH")

def preflight (image : String) : Deploy Unit := do
  note (.preflight image)
  let _ ← compose cfg env ["config", "--quiet"] image
  let _ ← task cfg env sequence
    ["python", "-m", "app.shared.config.preflight", "--image", image] image

/-- A head that matches `[a-zA-Z0-9_]+`. -/
def headOf : Json → Option (List Char)
  | .str head =>
    if head ≠ [] ∧ head.all fun c => c.isAlphanum || c = '_' then some head else none
  | _ => none

def heads (js : List Json) : Option (List (List Char)) :=
  js.mapM headOf

/-- The checks of `Docker.schema`. -/
def schemaOf (value : Json) : Except Exception Schema :=
  match value with
  | .obj ms =>
    match Json.member? ms "current".toList, Json.member? ms "target".toList with
    | some (.arr current), some (.arr target) =>
      if 1 < current.length ∨ target.length ≠ 1 then .error (.deploy "AMBIGUOUS_SCHEMA_HEAD")
      else match heads current, heads target with
        | some current, some target =>
          -- The heads are as many as the values that were counted.
          if h : current.length ≤ 1 ∧ target.length = 1 then .ok ⟨current, target, h.1, h.2⟩
          else .error (.deploy "AMBIGUOUS_SCHEMA_HEAD")
        | _, _ => .error (.deploy "INVALID_SCHEMA_REVISION")
    | _, _ => .error (.deploy "INVALID_SCHEMA_STATE")
  | _ => .error (.deploy "INVALID_SCHEMA_STATE")

/-- The program that prints the heads. -/
def schemaQuery : String :=
  "\nimport json\nfrom alembic.config import Config\n" ++
    "from alembic.runtime.migration import MigrationContext\n" ++
    "from alembic.script import ScriptDirectory\nfrom sqlalchemy import create_engine\n" ++
    "from app.shared.config.settings import Settings\ns = Settings(_env_file=None)\n" ++
    "e = create_engine(s.database_url.get_secret_value(), " ++
    "connect_args=\x7b'connect_timeout': 10\x7d)\nwith e.connect() as c:\n" ++
    "    current = list(MigrationContext.configure(c).get_current_heads())\n" ++
    "target = ScriptDirectory.from_config(Config('alembic.ini')).get_heads()\n" ++
    "print(json.dumps(\x7b'current': current, 'target': target\x7d))\ne.dispose()\n"

/-- The program that asks the service itself. -/
def healthQuery : String :=
  "import urllib.request; " ++
    "urllib.request.urlopen('http://127.0.0.1:8000/health/ready',timeout=3)"

def schema (image : String) : Deploy Schema := do
  let text ← task cfg env sequence ["python", "-c", schemaQuery] image
  let value ← loads text
  let schema ← give (schemaOf value)
  note (.schema image schema)
  pure schema

/-- An image of this repository. -/
def managed (text : String) : Except Exception String :=
  let current := String.ofList (Text.strip text.toList)
  if isImage current then .ok current else .error (.deploy "UNMANAGED_EXISTING_IMAGE")

/-- The image of the only container of the service, among those found. -/
def inspect (image : String) : List (List Char) → Deploy (Option String)
  | [] => do
    note (.runningImage image none)
    pure none
  | [id] => do
    let text ←
      run env ["inspect", "--format", "\x7b\x7b.Config.Image\x7d\x7d", String.ofList id] image
    let current ← give (managed text)
    note (.runningImage image (some current))
    pure (some current)
  | _ => raise (.deploy "AMBIGUOUS_SERVICE_STATE")

def runningImage (image : String) : Deploy (Option String) := do
  let text ← compose cfg env ["ps", "--all", "--quiet", "api"] image
  inspect env image (Text.words text.toList)

def migrate (image : String) : Deploy Unit := do
  note (.migrate image)
  let _ ← task cfg env sequence ["alembic", "upgrade", "head"] image

def start (image : String) : Deploy Unit := do
  note (.start image)
  let _ ← compose cfg env ["up", "-d", "--no-deps", "--pull", "never", "api"] image

/-- Whether an answer says that the service is ready. -/
def ready (r : Response) : Except Exception Bool :=
  if r.status = 200 ∧ r.url = cfg.readinessUrl then
    match Json.loads (r.body.toList.take 4096) with
    | none => .error .value
    | some (.obj ms) => .ok (isText "ready" (Json.member? ms "status".toList))
    | some _ => .error .attribute
  else .ok false

/-- One poll of `healthy`: what it catches counts as not ready. -/
def poll (image : String) (answer : Except Exception Response) : Deploy Bool :=
  attempt
    (do
      let _ ← compose cfg env ["exec", "-T", "api", "python", "-c", healthQuery] image
      let r ← give answer
      give (ready cfg r))
    fun
      | .deploy _ | .os | .value | .attribute => pure false
      | .other => raise .other

def await (image : String) : List (Except Exception Response) → Deploy Unit
  | [] => raise (.deploy "READINESS_FAILED")
  | answer :: answers => do
    let done ← poll cfg env image answer
    if done then pure () else await image answers

def healthy (image : String) : Deploy Unit := do
  note (.healthy image)
  let commands ← read (·.commands)
  await cfg env image (env.polls commands)

end Docker

section Execute

variable (cfg : Config) (env : Environment) (req : Request)

/-- `save_state`: the file is replaced, or the write raises and it stays. -/
def saveState (f : Files → Files) : Deploy Unit := do
  let writes ← read (·.writes)
  write fun m => { m with writes := m.writes + 1 }
  give (env.store writes)
  write fun m => { m with files := f m.files }

def saveAttempt : Deploy Unit := do
  let record ← read (·.record)
  saveState env fun files => { files with attempt := record }

/-- The record is published as `current.json`. -/
def saveCurrent : Deploy Unit := do
  let record ← read (·.record)
  match record with
  | none => raise .other
  | some record => do
    saveState env fun files => { files with current := some record }
    note (.published record)

/-- A schema change needs the policy and a verified backup. -/
def backupVerified (before : Schema) : Except Exception Unit :=
  if before.current = before.target then .ok ()
  else if cfg.migrationPolicy ≠ "upgrade" then
    .error (.deploy "SCHEMA_CHANGE_REQUIRES_BACKUP_READY_CONFIGURATION")
  else match cfg.backupRestoreVerifiedAt with
    | none => .error (.deploy "SCHEMA_CHANGE_REQUIRES_BACKUP_READY_CONFIGURATION")
    | some .unreadable => .error .value
    | some .naive => .error (.deploy "INVALID_BACKUP_VERIFICATION_RECORD")
    | some (.aware t) =>
      if env.now < t then .error (.deploy "INVALID_BACKUP_VERIFICATION_RECORD") else .ok ()

/-- The body of the first `try`. -/
def rollout : Deploy Unit := do
  pull env req.image req.revision
  preflight cfg env req.sequence req.image
  let previous ← runningImage cfg env req.image
  write fun m => { m with previous }
  let before ← schema cfg env req.sequence req.image
  write fun m => { m with before := some before }
  give (backupVerified cfg env before)
  amend fun r => { r with stage := .migration }
  migrate cfg env req.sequence req.image
  let after ← schema cfg env req.sequence req.image
  assert (after.current = before.target) (.deploy "MIGRATION_HEAD_MISMATCH")
  amend fun r => { r with stage := .rollout }
  write fun m => { m with swapped := true }
  start cfg env req.image
  healthy cfg env req.image
  amend fun r =>
    { r with
      status := .success, stage := .complete, schema := some after.current
      previousImage := previous }
  saveCurrent env

/-- The previous image is started again when the schema still is its own. -/
def restore (previous : String) : Deploy Unit := do
  let current ← schema cfg env req.sequence req.image
  let old ← schema cfg env req.sequence previous
  let before ← read (·.before)
  match before with
  | none => raise .other
  | some before =>
    if current.current ≠ before.current ∨ old.target ≠ before.current then
      amend fun r => { r with rollback := some .blockedSchemaChanged }
    else do
      start cfg env previous
      healthy cfg env previous
      amend fun r => { r with rollback := some .restoredPreviousImage }

/-- The handler of the first `try`. -/
def recover : Deploy Unit := do
  amend fun r => { r with status := .failed }
  note .failed
  let swapped ← read (·.swapped)
  let previous ← read (·.previous)
  match swapped, previous with
  | true, some previous =>
    if previous ≠ req.image then
      attempt (restore cfg env req previous) fun _ =>
        amend fun r => { r with rollback := some .failedRequiresOperator }
    else pure ()
  | _, _ => pure ()

/-- A request behind the recorded one. -/
def Stale (files : Files) : Prop :=
  ∃ r, files.attempt = some r ∧
    (req.sequence < r.sequence ∨ req.sequence = r.sequence ∧ req.image ≠ r.image)

instance (files : Files) : Decidable (Stale req files) :=
  match h : files.attempt with
  | none => isFalse fun ⟨_, hr, _⟩ => nomatch h.symm.trans hr
  | some r =>
    decidable_of_iff (req.sequence < r.sequence ∨ req.sequence = r.sequence ∧ req.image ≠ r.image)
      ⟨fun hr => ⟨r, h, hr⟩, fun ⟨_, hr', hr⟩ => Option.some.inj (h.symm.trans hr') ▸ hr⟩

def fresh : Deploy Unit := do
  let files ← read (·.files)
  assert (¬ Stale req files) (.deploy "STALE_DEPLOYMENT")

/-- `execute`. -/
def execute : Deploy Unit := do
  identity req
  give env.lock
  fresh req
  write fun m => { m with
    record := some
      { sequence := req.sequence
        image := req.image
        revision := req.revision
        status := .running
        stage := .prepare
        startedAt := env.started } }
  saveAttempt env
  ensure
    (attempt (rollout cfg env req) fun e => do
      recover cfg env req
      raise e)
    (saveAttempt env)

end Execute

/-- What one execution leaves behind besides the files. -/
structure Report where
  outcome : Except Exception Unit
  record : Option Record
  commands : List Command
  log : List Call

structure Action where
  cfg : Config
  env : Environment
  req : Request

def step (a : Action) (files : Files) : Report × Files :=
  match execute a.cfg a.env a.req (.begin files) with
  | (outcome, m) => (⟨outcome, m.record, m.commands, m.log⟩, m.files)

/-- Executions one after the other; the lock keeps them apart. -/
abbrev Run :=
  Transition.Exec step (fun _ _ => True) ⟨none, none⟩

end Prism.Deployment
