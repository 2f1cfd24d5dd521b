import Prism.Foundation.Json
import Prism.Model.PullRequest

/-! The GitHub client, the requests of a synchronization, and the execution of
`SyncWorker` around them. The network and the clock are parameters. -/

namespace Prism

/-! ## Requests and answers -/

/-- The requests a synchronization makes. -/
inductive Request where
  | accessTokens (installation repository : ℕ)
  | pulls (owner name : String) (page : ℕ)
  | pull (owner name : String) (number : ℕ)
  deriving DecidableEq, Repr

def Request.path : Request → String
  | .accessTokens installation _ =>
    "/app/installations/" ++ toString installation ++ "/access_tokens"
  | .pulls owner name page =>
    "/repos/" ++ owner ++ "/" ++ name ++
      "/pulls?state=all&sort=updated&direction=desc&per_page=30&page=" ++ toString page
  | .pull owner name number =>
    "/repos/" ++ owner ++ "/" ++ name ++ "/pulls/" ++ toString number

/-- Whether the URL depends on the requested pull-request number. -/
def Request.ofNumber : Request → Bool
  | .pull _ _ _ => true
  | _ => false

/-- The body of an answer: the stream breaks off, or it has a size and
`json.loads` returns a value or raises. -/
inductive Body where
  | broken
  | content (size : ℕ) (data : Option Json)

structure Response where
  status : ℕ
  retryAfter : Option String
  rateLimitRemaining : Option String
  rateLimitReset : Option String
  etag : Option String
  body : Body

/-- What a request ends with; `timeout` is `asyncio.timeout` running out. -/
inductive Reply where
  | response (r : Response)
  | httpError
  | timeout

abbrev Exchange := Request × Reply

inductive FetchError where
  | failure (f : GitHubFailure)
  | timeout
  deriving DecidableEq, Repr

/-- A computation that makes requests: what it exchanged and how it ended. -/
structure Http (α : Type) where
  exchanged : List Exchange
  result : Except FetchError α

namespace Http

def bind {α β : Type} (x : Http α) (f : α → Http β) : Http β :=
  match x.result with
  | .ok a => ⟨x.exchanged ++ (f a).exchanged, (f a).result⟩
  | .error e => ⟨x.exchanged, .error e⟩

instance : Monad Http where
  pure a := ⟨[], .ok a⟩
  bind := bind

def fail {α : Type} (f : GitHubFailure) : Http α :=
  ⟨[], .error (.failure f)⟩

theorem pure_then {α β : Type} (a : α) (f : α → Http β) : pure a >>= f = f a :=
  rfl

theorem fail_then {α β : Type} (e : GitHubFailure) (f : α → Http β) : fail e >>= f = fail e :=
  rfl

theorem bind_ok {α β : Type} {x : Http α} {a : α} (f : α → Http β) (h : x.result = .ok a) :
    x >>= f = ⟨x.exchanged ++ (f a).exchanged, (f a).result⟩ := by
  change bind x f = _
  rw [bind, h]

theorem bind_error {α β : Type} {x : Http α} {e : FetchError} (f : α → Http β)
    (h : x.result = .error e) : x >>= f = ⟨x.exchanged, .error e⟩ := by
  change bind x f = _
  rw [bind, h]

end Http

/-! ## The client -/

namespace GitHub

/-- `GitHubFailure()`. -/
def unavailable : GitHubFailure :=
  ⟨.githubUnavailable, none⟩

def invalidResponse : GitHubFailure :=
  ⟨.githubInvalidResponse, none⟩

/-- Truth of an optional string. -/
def truthy (s : Option String) : Bool :=
  s.any (· ≠ "")

def natOf (n : ℕ) : List Char → Option ℕ
  | [] => some n
  | '_' :: c :: rest => if c.isDigit then natOf (10 * n + (c.toNat - 48)) rest else none
  | c :: rest => if c.isDigit then natOf (10 * n + (c.toNat - 48)) rest else none

/-- `int(digits)`, which may be 4300 of them, with single underscores in between. -/
def digitsOf (s : List Char) : Option ℕ :=
  (natOf 0 s).filter fun _ => s.countP Char.isDigit ≤ 4300

/-- `Py_ISSPACE`. -/
def isBlank (c : Char) : Bool :=
  c.toNat = 32 || (9 ≤ c.toNat && c.toNat ≤ 13)

/-- `int(s)` on ASCII text. -/
def intOf (s : String) : Option ℤ :=
  match ((s.toList.dropWhile isBlank).reverse.dropWhile isBlank).reverse with
  | '-' :: c :: rest => if c.isDigit then (digitsOf (c :: rest)).map fun n => -(n : ℤ) else none
  | '+' :: c :: rest => if c.isDigit then (digitsOf (c :: rest)).map fun n => (n : ℤ) else none
  | c :: rest => if c.isDigit then (digitsOf (c :: rest)).map fun n => (n : ℤ) else none
  | [] => none

def rateLimited (r : Response) : Bool :=
  (r.status = 403 || r.status = 429) &&
    (truthy r.retryAfter || r.rateLimitRemaining = some "0")

/-- The delay of a rate limit; `time` is `int(time.time())`. -/
def rateDelay (time : ℤ) (r : Response) : ℤ :=
  let delay := ((intOf (r.retryAfter.getD "60")).map fun n => max 1 (min 86400 n)).getD 60
  ((intOf (r.rateLimitReset.getD "0")).map fun reset =>
    max delay (min 86400 (reset - time + 1))).getD delay

/-- The rest of `request`, for an answer that does not refuse: the body and its tag. -/
def received (r : Response) : Except GitHubFailure (Json × Option String) :=
  if 500 ≤ r.status then .error unavailable
  else if ¬(200 ≤ r.status ∧ r.status < 300) then .error invalidResponse
  else
    match r.body with
    | .broken => .error unavailable
    | .content size data =>
      if 2 * 1024 * 1024 < size then .error ⟨.githubResponseTooLarge, none⟩
      else
        match data with
        | none => .error unavailable
        | some data => .ok (data, r.etag.filter fun tag => tag.length ≤ 512)

/-- The answer part of `request`; a value of `None` is `null`. -/
def accept (time : ℤ) (etag : Option String) (cache : Bool) (r : Response) :
    Except GitHubFailure (Json × Option String) :=
  if r.status = 304 ∧ cache = true then
    if truthy etag then .ok (.null, etag) else .error invalidResponse
  else if rateLimited r then .error ⟨.githubRateLimit, some (rateDelay time r).toNat⟩
  else if r.status = 401 ∨ r.status = 403 ∨ r.status = 404 then
    .error ⟨.githubAccessUnavailable, none⟩
  else received r

end GitHub

/-- The client with its settings, the clock, the network, and `RemotePR` as a
validator that also checks the time zones. -/
structure GitHubClient where
  githubAppReady : Bool
  signs : Bool
  time : ℤ
  network : Request → Reply
  remotePR : Json → Option RemotePR

namespace GitHubClient

open GitHub

/-- `app_jwt`, without the token it signs. -/
def appJwt (g : GitHubClient) : Http Unit :=
  if ¬g.githubAppReady then .fail ⟨.githubAppNotConfigured, none⟩
  else if ¬g.signs then .fail ⟨.githubAppConfigInvalid, none⟩
  else pure ()

def request (g : GitHubClient) (asked : Request) (etag : Option String) (cache : Bool) :
    Http (Json × Option String) :=
  if ¬['/'] <+: asked.path.toList ∨ ['/', '/'] <+: asked.path.toList then .fail unavailable
  else
    ⟨[(asked, g.network asked)],
      match g.network asked with
      | .timeout => .error .timeout
      | .httpError => .error (.failure unavailable)
      | .response r => (accept g.time etag cache r).mapError .failure⟩

/-- `data.get(key)` for a dict read from JSON: the last member counts. -/
def member (key : String) : Json → Option Json
  | .obj members => (members.reverse.find? fun m => m.1 = key.toList).map Prod.snd
  | _ => none

def tokenOf (data : Json) : Option (List Char) :=
  match member "token" data with
  | some (.str token) => if 1 ≤ token.length ∧ token.length ≤ 4096 then some token else none
  | _ => none

def tokenFrom (data : Json) : Http (List Char) :=
  match tokenOf data with
  | some token => pure token
  | none => .fail unavailable

def installationToken (g : GitHubClient) (installation repository : ℕ) : Http (List Char) := do
  g.appJwt
  let (data, _) ← g.request (.accessTokens installation repository) none false
  tokenFrom data

/-- What `fetch` returns. -/
structure Fetched where
  rows : List RemotePR
  etag : Option String
  notModified : Bool
  deriving DecidableEq, Repr

/-- The request `fetch` makes after the token. -/
def asked (plan : FetchPlan) : Request :=
  if plan.number.getD 0 ≠ 0 then
    .pull plan.repo.ownerLogin plan.repo.repositoryName (plan.number.getD 0)
  else .pulls plan.repo.ownerLogin plan.repo.repositoryName plan.page

/-- The rows of an answer: one element, or a list of at most 30. -/
def rowsOf (g : GitHubClient) (plan : FetchPlan) (data : Json) : Option (List RemotePR) :=
  match if plan.number.getD 0 ≠ 0 then Json.arr [data] else data with
  | .arr items => if 30 < items.length then none else items.mapM g.remotePR
  | _ => none

/-- The end of `fetch`; no data means that nothing was modified. -/
def pageFrom (g : GitHubClient) (plan : FetchPlan) (data : Json) (tag : Option String) :
    Http Fetched :=
  match data with
  | .null => pure ⟨[], tag, true⟩
  | data =>
    match g.rowsOf plan data with
    | none => .fail invalidResponse
    | some rows => pure ⟨rows, tag, false⟩

def fetch (g : GitHubClient) (plan : FetchPlan) : Http Fetched := do
  let _ ← g.installationToken plan.repo.installationId plan.repo.githubRepositoryId
  let (data, tag) ← g.request (asked plan) plan.etag true
  g.pageFrom plan data tag

end GitHubClient

/-! ## The worker -/

namespace SyncWorker

/-- The arguments of `complete` after a recovery. -/
def recoveredOutcome : SyncOutcome :=
  ⟨[], some .leaseExpired, true, 5, none, false⟩

/-- The handler of `GitHubFailure`. -/
def failedOutcome (f : GitHubFailure) : SyncOutcome where
  rows := []
  code := some f.code
  retry := f.code = .githubUnavailable || f.code = .githubRateLimit ||
    f.code = .githubSnapshotConflict
  delay := if f.retryAfter.getD 0 ≠ 0 then f.retryAfter.getD 0 else 5
  etag := none
  notModified := false

/-- The handlers of `execute`, for an exception of `fetch`. -/
def errorOutcome : FetchError → SyncOutcome
  | .failure f => failedOutcome f
  | .timeout => ⟨[], some .githubTimeout, true, 5, none, false⟩

/-- The handlers of `execute`, for an exception of a transaction in its `try`. -/
def caught : Failure → Option SyncOutcome
  | .gitHub f => some (failedOutcome f)
  | .app e => some ⟨[], some e.code, false, 5, none, false⟩
  | _ => none

def fetchedOutcome (fetched : GitHubClient.Fetched) : SyncOutcome :=
  ⟨fetched.rows, none, false, 5, fetched.etag, fetched.notModified⟩

/-- `SyncWorker.execute`: the requests it makes, and its last call of `complete`
with the database that call reads. Other transactions may commit between its
own, which read `begun`, `fetched` and, after an exception, `handled`. -/
def execute (g : GitHubClient) (c : Claim) (ids : ℕ → UUID) (expired : Bool)
    (begun fetched handled : Db) : List Exchange × Option (Db × Tx Db) :=
  if expired then ([], some (fetched, complete fetched c ids recoveredOutcome true))
  else
    match begin begun c with
    | .error f => ([], (caught f).map fun o => (handled, complete handled c ids o false))
    | .ok (none, _) => ([], none)
    | .ok (some plan, _) =>
      let answer := g.fetch plan
      (answer.exchanged,
        match answer.result with
        | .error e => some (handled, complete handled c ids (errorOutcome e) false)
        | .ok page =>
          match complete fetched c ids (fetchedOutcome page) false with
          | .ok db => some (fetched, .ok db)
          | .error f => (caught f).map fun o => (handled, complete handled c ids o false))

end SyncWorker

end Prism
