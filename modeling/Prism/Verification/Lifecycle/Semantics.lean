import Prism.Verification.Jobs.Correctness
import Prism.Model.System

/-! What the queue is for, without the rest of the database: every unit of work
has a job and a status, workers lease the jobs, and the status follows the job.
A board is that view of the system, and its moves are the only ways it changes. -/

namespace Prism.Lifecycle

/-- The status of a unit of work of any kind. -/
inductive Status where
  | pending | running | processing | completed | processed | ignored | failed | canceled
  deriving DecidableEq, Repr

def Status.terminal : Status → Bool
  | .pending | .running | .processing => false
  | .completed | .processed | .ignored | .failed | .canceled => true

def ofRun : RunStatus → Status
  | .pending => .pending
  | .running => .running
  | .completed => .completed
  | .failed => .failed
  | .canceled => .canceled

def ofDelivery : DeliveryStatus → Status
  | .pending => .pending
  | .processing => .processing
  | .processed => .processed
  | .failed => .failed
  | .canceled => .canceled
  | .ignored => .ignored

@[simp] theorem terminal_ofRun (s : RunStatus) : (ofRun s).terminal = s.terminal := by
  cases s <;> rfl

@[simp] theorem terminal_ofDelivery (s : DeliveryStatus) :
    (ofDelivery s).terminal = s.terminal := by
  cases s <;> rfl

theorem ofRun_injective : Function.Injective ofRun := by
  intro s t h
  cases s <;> cases t <;> first | rfl | contradiction

/-- The status of the aggregate a job of a kind belongs to. -/
def statusIn (db : Db) (kind : Kind) (id : UUID) : Option Status :=
  match kind with
  | .syncPullRequests => (db.syncRuns.get id).map fun run => ofRun run.status
  | .analyzePr => (db.analysisRuns.get id).map fun run => ofRun run.status
  | .explainFindings => (db.reviewRuns.get id).map fun run => ofRun run.status
  | .processWebhook => (db.deliveries.get id).map fun row => ofDelivery row.status

structure Board where
  now : Instant
  jobs : Table UUID Job
  status : Kind → UUID → Option Status
  issued : List Claim

/-- The board of a database and the claims handed out on it. -/
def boardOf (db : Db) (issued : List Claim) : Board where
  now := db.now
  jobs := db.jobs
  status := statusIn db
  issued := issued

abbrev board (w : World) : Board :=
  boardOf w.db w.issued

/-- Record a status. -/
def mark (status : Kind → UUID → Option Status) (kind : Kind) (id : UUID) (st : Status) :
    Kind → UUID → Option Status :=
  fun kind' id' => if kind' = kind ∧ id' = id then some st else status kind' id'

@[simp] theorem mark_self (status : Kind → UUID → Option Status) (kind : Kind) (id : UUID)
    (st : Status) : mark status kind id st kind id = some st := by
  simp [mark]

theorem mark_of_ne (status : Kind → UUID → Option Status) {kind kind' : Kind} {id id' : UUID}
    (st : Status) (h : ¬(kind' = kind ∧ id' = id)) :
    mark status kind id st kind' id' = status kind' id' := by
  simp [mark, h]

/-- The ways a board changes. -/
inductive Move : Board → Board → Prop where
  | tick (b : Board) (elapsed : ℕ) : Move b { b with now := b.now + elapsed }
  | enqueue (b : Board) (jid : UUID) (kind : Kind) (aggregate : UUID) (wid : Option UUID) :
      b.jobs.get jid = none →
      (∀ id j, b.jobs.get id = some j → j.kind = kind → j.aggregateId ≠ aggregate) →
      b.status kind aggregate = none →
      (wid.isSome = true ∨ kind = .processWebhook) →
      Move b { b with
        jobs := b.jobs.put jid (Jobs.queued b.now kind aggregate wid)
        status := mark b.status kind aggregate .pending }
  | lease (b : Board) (jid : UUID) (j : Job) (worker : String) :
      b.jobs.get jid = some j → j.state = .ready →
      Move b { b with
        jobs := b.jobs.put jid (Jobs.leased b.now worker j)
        issued := (Jobs.leased b.now worker j).claim jid :: b.issued }
  | recover (b : Board) (jid : UUID) (j : Job) :
      b.jobs.get jid = some j → j.state = .leased →
      Move b { b with issued := j.claim jid :: b.issued }
  | renew (b : Board) (jid : UUID) (j : Job) (leaseUntil : Instant) :
      b.jobs.get jid = some j → j.state = .leased → j.leaseUntil = some leaseUntil →
      b.now < leaseUntil →
      Move b { b with
        jobs := b.jobs.put jid { j with leaseUntil := some (b.now + seconds 60) } }
  | start (b : Board) (jid : UUID) (j : Job) :
      b.jobs.get jid = some j → j.state = .leased →
      Move b { b with status := mark b.status j.kind j.aggregateId .running }
  | settle (b : Board) (jid : UUID) (j j' : Job) (st : Status) :
      b.jobs.get jid = some j → j.state.completed = false → Jobs.Settled j j' →
      st.terminal = j'.state.completed → st ≠ .running →
      Move b { b with
        jobs := b.jobs.put jid j'
        status := mark b.status j.kind j.aggregateId st }

/-- A sequence of moves, as one transaction may make several. -/
abbrev Moves : Board → Board → Prop :=
  Relation.ReflTransGen Move

end Prism.Lifecycle
