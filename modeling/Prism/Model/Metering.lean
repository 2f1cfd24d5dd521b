import Mathlib.Algebra.Ring.Int.Defs
import Prism.Model.System

/-! The system together with the token counters of `ReviewWorker.execute`. An
execution adds up what its provider calls report and hands the sums to every later
transaction; everything else runs as in the plain system. -/

namespace Prism

/-- The variables `incoming` and `outgoing` of one execution, with the numbers of
reservations it was granted, of calls it started and of calls that returned. -/
structure Usage where
  incoming : ℤ
  outgoing : ℤ
  reserved : ℕ
  started : ℕ
  returned : ℕ
  deriving DecidableEq, Repr

/-- The counters at the start of `execute`. -/
def Usage.zero : Usage := ⟨0, 0, 0, 0, 0⟩

/-- Where `execute` stands: it waits for a provider call, or runs on with the answers it has. -/
inductive CallStage where
  | waiting
  | running (answers : ℕ)
  deriving DecidableEq, Repr

def Usage.stage (u : Usage) : CallStage :=
  if u.returned < u.started then .waiting else .running u.returned

/-- What is completed at a stage: without a code, only what has both answers. -/
def CallStage.completes (stage : CallStage) (code : Option Code) : Bool :=
  code.isSome || stage = .running 2

structure Meter where
  world : World
  usages : Table UUID Usage

inductive MeterAction where
  -- everything but the transactions and calls below, recoveries included
  | system (a : Action)
  | reserve (tid : UUID)
  | call (tid : UUID)
  | reply (tid : UUID) (incoming outgoing : ℤ)
  | complete (tid : UUID) (result : Option Json) (code : Option Code)
  deriving Inhabited

inductive MeterOutcome where
  | ran (o : Outcome)
  | reported (rid : UUID) (incoming outgoing : ℤ)
  | ignored
  deriving DecidableEq, Repr

namespace Meter

def initial (now : Instant) : Meter := ⟨World.initial now, ∅⟩

def usage (m : Meter) (tid : UUID) : Usage := (m.usages.get tid).getD .zero

/-- Run an action of the system. -/
def run (m : Meter) (a : Action) : MeterOutcome × Meter :=
  (.ran (World.step a m.world).1, { m with world := (World.step a m.world).2 })

def setUsage (m : Meter) (tid : UUID) (u : Usage) : Meter :=
  { m with usages := m.usages.put tid u }

/-- `reserve` is given the counters of the execution; both are zero before the
first call. -/
def reserve (m : Meter) (tid : UUID) : MeterOutcome × Meter :=
  let u := m.usage tid
  match u.stage with
  | .waiting => (.ignored, m)
  | .running _ =>
    match m.run (.reviewReserve tid u.incoming u.outgoing) with
    | (.ran (.reserved tid' rid second), m') =>
      (.ran (.reserved tid' rid second), m'.setUsage tid { u with reserved := u.reserved + 1 })
    | r => r

def call (m : Meter) (tid : UUID) : MeterOutcome × Meter :=
  let u := m.usage tid
  match m.run (.reviewCall tid) with
  | (.ran (.called tid' rid second), m') =>
    (.ran (.called tid' rid second), m'.setUsage tid { u with started := u.started + 1 })
  | r => r

/-- A provider call returns: its report is added to the counters. A call that
raises returns nothing. -/
def reply (m : Meter) (tid : UUID) (incoming outgoing : ℤ) : MeterOutcome × Meter :=
  match m.world.reviewers.get tid with
  | none => (.ignored, m)
  | some t =>
    let u := m.usage tid
    match u.stage with
    | .running _ => (.ignored, m)
    | .waiting =>
      (.reported t.claim.aggregateId incoming outgoing,
        m.setUsage tid { u with
          incoming := u.incoming + incoming
          outgoing := u.outgoing + outgoing
          returned := u.returned + 1 })

/-- The completion of an execution that is not a recovery. -/
def completion (m : Meter) (t : Reviewer) (tid : UUID) (result : Option Json)
    (code : Option Code) : Action :=
  .reviewComplete t.claim result code false (m.usage tid).incoming (m.usage tid).outgoing

def complete (m : Meter) (tid : UUID) (result : Option Json) (code : Option Code) :
    MeterOutcome × Meter :=
  match m.world.reviewers.get tid with
  | none => (.ignored, m)
  | some t =>
    if (m.usage tid).stage.completes code then m.run (m.completion t tid result code)
    else (.ignored, m)

/-- Execute one action. -/
def step (a : MeterAction) (m : Meter) : MeterOutcome × Meter :=
  match a with
  | .system a => m.run a
  | .reserve tid => m.reserve tid
  | .call tid => m.call tid
  | .reply tid incoming outgoing => m.reply tid incoming outgoing
  | .complete tid result code => m.complete tid result code

/-- The actions of the plain system that do not carry counters of an execution. A
recovery completes with counters of zero. -/
def unmetered : Action → Bool
  | .reviewReserve _ _ _ | .reviewCall _ => false
  | .reviewComplete _ result _ expired incoming outgoing =>
    expired && result.isNone && incoming = 0 && outgoing = 0
  | _ => true

/-- Reports are not negative. -/
def allowed (a : MeterAction) (m : Meter) : Prop :=
  match a with
  | .system a => World.allowed a m.world ∧ unmetered a = true
  | .reserve _ | .call _ => True
  | .reply _ incoming outgoing => 0 ≤ incoming ∧ 0 ≤ outgoing
  | .complete tid result code =>
    ∀ t ∈ m.world.reviewers.get tid, World.allowed (m.completion t tid result code) m.world

instance (a : MeterAction) (m : Meter) : Decidable (allowed a m) :=
  match a with
  | .system _ => inferInstanceAs (Decidable (_ ∧ _))
  | .reserve _ | .call _ => inferInstanceAs (Decidable True)
  | .reply _ _ _ => inferInstanceAs (Decidable (_ ∧ _))
  | .complete _ _ _ => inferInstanceAs (Decidable (∀ _ ∈ _, _))

abbrev Trace := List (Transition.Event Meter MeterAction MeterOutcome)

/-- The metered executions of the system from an empty database. -/
abbrev Run (now : Instant) : Trace → Meter → Prop :=
  Transition.Exec step allowed (initial now)

abbrev Path (m : Meter) : Trace → Meter → Prop :=
  Transition.Exec step allowed m

/-- What the provider calls for a run reported, the latest first. -/
def reports (rid : UUID) (trace : Trace) : List (ℤ × ℤ) :=
  trace.filterMap fun e =>
    match e.outcome with
    | .reported rid' incoming outgoing => if rid' = rid then some (incoming, outgoing) else none
    | _ => none

end Meter

end Prism
