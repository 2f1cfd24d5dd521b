import Prism.Foundation.Transition
import Prism.Model.Review
import Prism.Model.Webhook

/-! The running system: one database and any number of processes. Each action is
one committed or rolled-back transaction, a provider call, or a change made
outside the modelled services. Everything a process chooses or is told from
outside (clock, identifiers, network results) is part of the action; a process
that crashes takes no further actions. -/

namespace Prism

/-- How far one execution of `ReviewWorker.execute` has come. -/
inductive ReviewStage where
  | reading
  | reserved (second : Bool)
  | reviewed
  | left
  deriving DecidableEq, Repr

structure Reviewer where
  claim : Claim
  stage : ReviewStage
  deriving DecidableEq, Repr

/-- The database, every claim handed out so far, and the review executions. -/
structure World where
  db : Db
  issued : List Claim
  reviewers : Table UUID Reviewer

def World.initial (now : Instant) : World where
  db := Db.empty now
  issued := []
  reviewers := ∅

inductive Action where
  -- the clock, tenancy and team documents, which other services maintain
  | tick (elapsed : ℕ)
  | setUser (uid : UUID) (user : User)
  | setMember (wid uid : UUID) (member : WorkspaceMember)
  | addWorkspace (wid : UUID)
  | setStandards (rows : List StandardVersion)
  -- requests of users
  | connect (uid wid : UUID) (verified : VerifiedRepository) (rid cid sid jid : UUID)
  | disconnect (uid wid rid : UUID)
  | sync (uid wid rid : UUID) (page : ℕ) (number : Option ℕ) (sid jid : UUID)
  | analysisStart (st : Settings) (uid wid pid : UUID) (rerunOf : Option UUID) (aid jid : UUID)
  | analysisCancel (uid wid aid : UUID)
  | reviewStart (st : Settings) (uid wid aid : UUID) (consent : Bool) (rerun : Option UUID)
      (purpose : Purpose) (waited : ℕ) (rid jid : UUID)
  | reviewCancel (uid wid rid : UUID)
  | receive (event : Event) (stale : Bool) (did jid : UUID)
  -- the job runner
  | claim (worker : String) (kinds : List Kind) (locked : List UUID)
  | expired (kinds : List Kind) (rows : List UUID)
  | heartbeat (c : Claim)
  -- the workers
  | syncBegin (c : Claim)
  | syncComplete (c : Claim) (ids : ℕ → UUID) (o : SyncOutcome) (expired : Bool)
  | analysisBegin (st : Settings) (c : Claim)
  | analysisCheckpoint (c : Claim)
  | analysisComplete (c : Claim) (fileIds findingIds : ℕ → UUID) (result : Option Result)
      (code : Option Code) (retry expired : Bool) (delay : ℕ)
  | reviewBegin (st : Settings) (c : Claim) (tid : UUID)
  | reviewReserve (tid : UUID) (incoming outgoing : ℤ)
  | reviewCall (tid : UUID)
  | reviewStillAuthorized (tid : UUID)
  | reviewComplete (c : Claim) (result : Option Json) (code : Option Code) (expired : Bool)
      (incoming outgoing : ℤ)
  | webhookExecute (c : Claim) (expired : Bool) (sid jid : UUID)

/-- What an action reports besides the new state. -/
inductive Outcome where
  | committed
  | rolledBack (f : Failure)
  | answered (status : ℕ)
  | issued (claims : List Claim)
  | reserved (tid rid : UUID) (second : Bool)
  | called (tid rid : UUID) (second : Bool)
  | idle
  deriving DecidableEq, Repr

namespace World

/-- The claim an action is made with. -/
def claimOf : Action → Option Claim
  | .heartbeat c | .syncBegin c | .syncComplete c _ _ _ | .analysisBegin _ c
  | .analysisCheckpoint c | .analysisComplete c _ _ _ _ _ _ _ | .reviewBegin _ c _
  | .reviewComplete c _ _ _ _ _ | .webhookExecute c _ _ _ => some c
  | _ => none

/-- The kind of job the worker of an action is registered for. -/
def kindOf : Action → Option Kind
  | .syncBegin _ | .syncComplete _ _ _ _ => some .syncPullRequests
  | .analysisBegin _ _ | .analysisCheckpoint _ | .analysisComplete _ _ _ _ _ _ _ _ =>
    some .analyzePr
  | .reviewBegin _ _ _ | .reviewComplete _ _ _ _ _ _ => some .explainFindings
  | .webhookExecute _ _ _ _ => some .processWebhook
  | _ => none

/-- The arguments `execute` passes to `complete`: a result or a code, and
`LEASE_EXPIRED` for a recovery. -/
def passed : Action → Bool
  | .syncComplete _ _ o expired => !expired || o.code = some .leaseExpired
  | .analysisComplete _ _ _ result code _ expired _ =>
    result.isSome = code.isNone && (!expired || code = some .leaseExpired)
  | .reviewComplete _ result code expired _ _ =>
    (result.isSome || code.isSome) && (!expired || code = some .leaseExpired)
  | _ => true

/-- Workers and heartbeats only use claims that were handed out, and the runner
dispatches a claim by its kind. -/
def allowed (a : Action) (w : World) : Prop :=
  (∀ c ∈ claimOf a, c ∈ w.issued ∧ ∀ kind ∈ kindOf a, c.kind = kind) ∧ passed a = true

instance (a : Action) (w : World) : Decidable (allowed a w) :=
  inferInstanceAs (Decidable (_ ∧ _))

/-- Commit a transaction body, or roll it back. -/
def commit (w : World) (body : Tx Db) : Outcome × World :=
  match body with
  | .ok db => (.committed, { w with db := db })
  | .error f => (.rolledBack f, w)

/-- `_connect_one`: connect and request the first synchronization together. -/
def connectOne (db : Db) (uid wid : UUID) (verified : VerifiedRepository)
    (rid cid sid jid : UUID) : Tx Db := do
  let (id, db) ← connect db uid wid verified rid cid
  let (_, db) ← Sync.enqueue db uid wid id 1 none sid jid
  .ok db

def addWorkspace (db : Db) (wid : UUID) : Tx Db := do
  let workspaces ← insertRow db.workspaces wid .active
  .ok { db with workspaces := workspaces }

def answer (w : World) (body : Tx (ℕ × Db)) : Outcome × World :=
  match body with
  | .ok (status, db) => (.answered status, { w with db := db })
  | .error f => (.rolledBack f, w)

def issue (w : World) (claims : List Claim) (jobs : Table UUID Job) : Outcome × World :=
  (.issued claims, { w with db := { w.db with jobs := jobs }, issued := claims ++ w.issued })

def claim (w : World) (worker : String) (kinds : List Kind) (locked : List UUID) :
    Outcome × World :=
  match Jobs.claim w.db.jobs w.db.now worker kinds locked with
  | none => (.idle, w)
  | some (c, jobs) => w.issue [c] jobs

def heartbeat (w : World) (c : Claim) : Outcome × World :=
  (.committed, { w with db := { w.db with jobs := (Jobs.heartbeat w.db.jobs w.db.now c).2 } })

/-- Move a review execution on. -/
def goto (w : World) (tid : UUID) (t : Reviewer) (stage : ReviewStage) : World :=
  { w with reviewers := w.reviewers.put tid { t with stage := stage } }

/-- The begin transaction of a review; a plan starts a new execution. -/
def reviewBegin (w : World) (st : Settings) (c : Claim) (tid : UUID) : Outcome × World :=
  match ReviewWorker.begin st w.db c with
  | .error f => (.rolledBack f, w)
  | .ok (none, db) => (.committed, { w with db := db })
  | .ok (some _, db) =>
    if (w.reviewers.get tid).isSome then (.idle, w)
    else (.committed, { w with db := db, reviewers := w.reviewers.put tid ⟨c, .reading⟩ })

/-- The reservation an execution asks for at its stage. -/
def reservation (stage : ReviewStage) : Option Bool :=
  match stage with
  | .reading => some false
  | .reviewed => some true
  | _ => none

/-- `reserve`: an execution whose reservation fails returns. -/
def reviewReserve (w : World) (tid : UUID) (incoming outgoing : ℤ) : Outcome × World :=
  match w.reviewers.get tid with
  | none => (.idle, w)
  | some t =>
    match reservation t.stage with
    | none => (.idle, w)
    | some second =>
      match ReviewWorker.reserve w.db t.claim second.toNat incoming outgoing with
      | .error f => (.rolledBack f, w.goto tid t .left)
      | .ok (false, db) => (.committed, { w with db := db }.goto tid t .left)
      | .ok (true, db) =>
        (.reserved tid t.claim.aggregateId second, { w with db := db }.goto tid t (.reserved second))

/-- Start the provider call an execution has reserved: `review`, then one of
`verify` and `recheck_empty`. -/
def reviewCall (w : World) (tid : UUID) : Outcome × World :=
  match w.reviewers.get tid with
  | some ⟨c, .reserved false⟩ =>
    (.called tid c.aggregateId false, w.goto tid ⟨c, .reserved false⟩ .reviewed)
  | some ⟨c, .reserved true⟩ =>
    (.called tid c.aggregateId true, w.goto tid ⟨c, .reserved true⟩ .left)
  | _ => (.idle, w)

/-- `still_authorized` between the second reservation and its call. -/
def reviewStillAuthorized (w : World) (tid : UUID) : Outcome × World :=
  match w.reviewers.get tid with
  | some ⟨c, .reserved true⟩ =>
    match ReviewWorker.stillAuthorized w.db c with
    | .ok true => (.committed, w)
    | .ok false => (.committed, w.goto tid ⟨c, .reserved true⟩ .left)
    | .error f => (.rolledBack f, w.goto tid ⟨c, .reserved true⟩ .left)
  | _ => (.idle, w)

/-- Execute one action. -/
def step (a : Action) (w : World) : Outcome × World :=
  match a with
  | .tick elapsed => w.commit (.ok { w.db with now := w.db.now + elapsed })
  | .setUser uid user => w.commit (.ok { w.db with users := w.db.users.put uid user })
  | .setMember wid uid member =>
    w.commit (.ok { w.db with members := w.db.members.put (wid, uid) member })
  | .addWorkspace wid => w.commit (addWorkspace w.db wid)
  | .setStandards rows => w.commit (.ok { w.db with standards := rows })
  | .connect uid wid verified rid cid sid jid =>
    w.commit (connectOne w.db uid wid verified rid cid sid jid)
  | .disconnect uid wid rid => w.commit (Prism.disconnect w.db uid wid rid)
  | .sync uid wid rid page number sid jid =>
    w.commit ((Sync.enqueue w.db uid wid rid page number sid jid).map Prod.snd)
  | .analysisStart st uid wid pid rerunOf aid jid =>
    w.commit ((Analysis.start st w.db uid wid pid rerunOf aid jid).map Prod.snd)
  | .analysisCancel uid wid aid => w.commit (Analysis.cancel w.db uid wid aid)
  | .reviewStart st uid wid aid consent rerun purpose waited rid jid =>
    w.commit ((Review.start st w.db uid wid aid consent rerun purpose waited rid jid).map Prod.snd)
  | .reviewCancel uid wid rid => w.commit (Review.cancel w.db uid wid rid)
  | .receive event stale did jid => w.answer (Webhook.receive w.db event stale did jid)
  | .claim worker kinds locked => w.claim worker kinds locked
  | .expired kinds rows => w.issue (Jobs.expired w.db.jobs w.db.now kinds rows) w.db.jobs
  | .heartbeat c => w.heartbeat c
  | .syncBegin c => w.commit ((SyncWorker.begin w.db c).map Prod.snd)
  | .syncComplete c ids o expired => w.commit (SyncWorker.complete w.db c ids o expired)
  | .analysisBegin st c => w.commit ((AnalysisWorker.begin st w.db c).map Prod.snd)
  | .analysisCheckpoint c => w.commit ((AnalysisWorker.checkpoint w.db c).map fun _ => w.db)
  | .analysisComplete c fileIds findingIds result code retry expired delay =>
    w.commit (AnalysisWorker.complete w.db c fileIds findingIds result code retry expired delay)
  | .reviewBegin st c tid => w.reviewBegin st c tid
  | .reviewReserve tid incoming outgoing => w.reviewReserve tid incoming outgoing
  | .reviewCall tid => w.reviewCall tid
  | .reviewStillAuthorized tid => w.reviewStillAuthorized tid
  | .reviewComplete c result code expired incoming outgoing =>
    w.commit (ReviewWorker.complete w.db c result code expired incoming outgoing)
  | .webhookExecute c expired sid jid =>
    w.commit (WebhookWorker.execute w.db c expired sid jid)

/-- The events of an execution, the newest first. -/
abbrev Trace := List (Transition.Event World Action Outcome)

/-- The executions of the system from a state. -/
abbrev Path (w : World) : Trace → World → Prop :=
  Transition.Exec step allowed w

/-- The executions of the system from an empty database. -/
abbrev Run (now : Instant) : Trace → World → Prop :=
  Path (initial now)

end World

end Prism
