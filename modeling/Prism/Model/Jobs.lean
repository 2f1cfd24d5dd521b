import Mathlib.Data.List.MinMax
import Mathlib.Data.List.ModifyLast
import Mathlib.Data.Prod.Lex
import Prism.Foundation.Table
import Prism.Model.Exception

/-! The persistent job queue of `app/shared/jobs`: rows, leases with a fencing
generation, and the attempt history. Every function reads the clock once. -/

namespace Prism

inductive Kind where
  | syncPullRequests | analyzePr | explainFindings | processWebhook
  deriving DecidableEq, Repr

inductive JobState where
  | ready | leased | succeeded | dead | canceled
  deriving DecidableEq, Repr

/-- `state IN ('SUCCEEDED','DEAD','CANCELED')`. -/
def JobState.completed : JobState → Bool
  | .ready | .leased => false
  | .succeeded | .dead | .canceled => true

inductive AttemptOutcome where
  | retry | failed | succeeded | canceled
  deriving DecidableEq, Repr

/-- One entry of the JSON column `attempt_history`. -/
structure Attempt where
  attempt : ℕ
  generation : ℕ
  startedAt : Instant
  finishedAt : Option Instant
  outcome : Option AttemptOutcome
  errorCode : Option Code
  deriving DecidableEq, Repr

structure Job where
  workspaceId : Option UUID
  kind : Kind
  aggregateId : UUID
  state : JobState
  attempts : ℕ
  maxAttempts : ℕ
  availableAt : Instant
  leaseUntil : Option Instant
  leaseGeneration : ℕ
  claimedBy : Option String
  completedAt : Option Instant
  errorCode : Option Code
  attemptHistory : List Attempt
  deriving DecidableEq, Repr

/-- `ck_job_attempts`. -/
def Job.ckJobAttempts (j : Job) : Prop :=
  0 ≤ j.attempts ∧ j.attempts ≤ j.maxAttempts ∧ 0 < j.maxAttempts ∧ 0 ≤ j.leaseGeneration

/-- `ck_job_lease`. -/
def Job.ckJobLease (j : Job) : Prop :=
  j.state = .leased ∧ j.leaseUntil ≠ none ∧ j.claimedBy ≠ none ∨
    j.state ≠ .leased ∧ j.leaseUntil = none ∧ j.claimedBy = none

/-- `ck_job_completed`. -/
def Job.ckJobCompleted (j : Job) : Prop :=
  j.state.completed = true ↔ j.completedAt ≠ none

/-- What a worker holds while it executes a job. -/
structure Claim where
  id : UUID
  aggregateId : UUID
  workspaceId : Option UUID
  kind : Kind
  generation : ℕ
  worker : String
  deriving DecidableEq, Repr

/-- The claim a leased row was handed out with, as `expired` rebuilds it. -/
def Job.claim (j : Job) (id : UUID) : Claim where
  id := id
  aggregateId := j.aggregateId
  workspaceId := j.workspaceId
  kind := j.kind
  generation := j.leaseGeneration
  worker := j.claimedBy.getD ""

namespace Jobs

/-- The row inserted by `enqueue`. -/
def queued (now : Instant) (kind : Kind) (aggregate : UUID) (wid : Option UUID) : Job where
  workspaceId := wid
  kind := kind
  aggregateId := aggregate
  state := .ready
  attempts := 0
  maxAttempts := 3
  availableAt := now
  leaseUntil := none
  leaseGeneration := 0
  claimedBy := none
  completedAt := none
  errorCode := none
  attemptHistory := []

/-- Insert a job. The primary key and `uq_job_aggregate` reject duplicates. -/
def enqueue (jobs : Table UUID Job) (now : Instant) (jid : UUID) (kind : Kind)
    (aggregate : UUID) (wid : Option UUID) : Tx (Table UUID Job) :=
  if (jobs.get jid).isSome ||
      jobs.holds (fun _ j => j.kind = kind && j.aggregateId = aggregate) then
    .error .integrityError
  else
    .ok (jobs.put jid (queued now kind aggregate wid))

/-- The row after `claim` leased it to `worker`. -/
def leased (now : Instant) (worker : String) (j : Job) : Job :=
  { j with
    state := .leased
    attempts := j.attempts + 1
    leaseGeneration := j.leaseGeneration + 1
    claimedBy := some worker
    leaseUntil := some (now + seconds 60)
    attemptHistory := j.attemptHistory ++
      [{ attempt := j.attempts + 1
         generation := j.leaseGeneration + 1
         startedAt := now
         finishedAt := none
         outcome := none
         errorCode := none }] }

/-- Lease the oldest available job. `locked` are the rows `SKIP LOCKED` passes
over because a concurrent transaction holds them. -/
def claim (jobs : Table UUID Job) (now : Instant) (worker : String) (kinds : List Kind)
    (locked : List UUID) : Option (Claim × Table UUID Job) :=
  let candidates := jobs.select fun id j =>
    j.state = .ready && decide (j.availableAt ≤ now) && decide (j.kind ∈ kinds) &&
      !decide (id ∈ locked)
  match candidates.argmin (fun e => toLex (e.2.availableAt, e.1)) with
  | none => none
  | some (id, j) => some ((leased now worker j).claim id, jobs.put id (leased now worker j))

/-- The row a claim still controls: leased at its generation to its worker, and
expired exactly when the caller is a recovery. -/
def fence (jobs : Table UUID Job) (now : Instant) (c : Claim) (expired : Bool) : Option Job :=
  match jobs.get c.id with
  | none => none
  | some j =>
    match j.leaseUntil with
    | none => none
    | some leaseUntil =>
      if j.state ≠ .leased ∨ j.leaseGeneration ≠ c.generation ∨ j.claimedBy ≠ some c.worker then
        none
      else if decide (leaseUntil ≤ now) ≠ expired then none
      else some j

/-- The claims of rows whose lease ran out. The query has no order and returns
at most 50 rows; `rows` are the ones it happened to return. -/
def expired (jobs : Table UUID Job) (now : Instant) (kinds : List Kind) (rows : List UUID) :
    List Claim :=
  (rows.take 50).filterMap fun id =>
    match jobs.get id with
    | none => none
    | some j =>
      match j.leaseUntil with
      | none => none
      | some leaseUntil =>
        if j.state = .leased ∧ leaseUntil ≤ now ∧ j.kind ∈ kinds then some (j.claim id) else none

/-- Whether a failed attempt is queued again. -/
def again (j : Job) (code : Option Code) (retry : Bool) : Bool :=
  code.isSome && retry && decide (j.attempts < j.maxAttempts)

/-- `finish`: end the current attempt. `history[-1]` raises on an empty history. -/
def finish (now : Instant) (j : Job) (code : Option Code) (retry : Bool) (delay : ℕ) : Tx Job :=
  if j.attemptHistory = [] then .error .indexError
  else .ok
    { j with
      state := if again j code retry then .ready else if code.isSome then .dead else .succeeded
      errorCode := code
      leaseUntil := none
      claimedBy := none
      completedAt := if again j code retry then none else some now
      availableAt :=
        if again j code retry then now + seconds (max delay (if j.attempts = 1 then 5 else 30))
        else j.availableAt
      attemptHistory := j.attemptHistory.modifyLast fun a =>
        { a with
          finishedAt := some now
          outcome := some
            (if again j code retry then .retry else if code.isSome then .failed else .succeeded)
          errorCode := code } }

/-- Extend a live lease; the flag is the result of `heartbeat`. -/
def heartbeat (jobs : Table UUID Job) (now : Instant) (c : Claim) : Bool × Table UUID Job :=
  match fence jobs now c false with
  | none => (false, jobs)
  | some j => (true, jobs.put c.id { j with leaseUntil := some (now + seconds 60) })

end Jobs

end Prism
