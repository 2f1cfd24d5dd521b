import Prism.Verification.Connection.Trace
import Prism.Verification.Webhook.Trace

/-! The deliveries of a repository whose synchronizations keep it busy: they wait
as long as their jobs have attempts left. -/

namespace Prism.WebhookWorker

open World

/-! ## Placement -/

theorem requireEvent_lock {db : Db} {wid rid : UUID} {generation : ℕ} {repo : RepositorySnapshot}
    (h : requireEvent db wid rid generation = .ok repo) : lockSystem db wid = true := by
  unfold requireEvent at h
  split at h
  · contradiction
  · split at h
    · contradiction
    · rename_i hlive
      simp only [not_or, Bool.not_eq_false] at hlive
      exact hlive.1

theorem requireEvent_of_live {db : Db} {wid rid : UUID} {generation : ℕ}
    {r : RepositoryConnection} (hget : db.connections.get rid = some r)
    (hwid : r.workspaceId = wid) (hlock : lockSystem db wid = true)
    (hlive : Live db rid generation) :
    requireEvent db wid rid generation = .ok (snapshot rid r) := by
  obtain ⟨r', hget', hactive, hgen⟩ := hlive
  obtain rfl := Option.some.inj (hget.symm.trans hget')
  have hin : connectionIn db wid rid = some r := connectionIn_eq_some.mpr ⟨hget, hwid⟩
  simp [requireEvent, hin, hlock, hactive, hgen]

/-- The delivery of a pull-request event belongs to a connection of its
workspace, which is not closed, and was received by now. -/
structure Placed (db : Db) (row : WebhookDelivery) : Prop where
  received : row.receivedAt ≤ db.now
  connection : row.event = .pullRequest → ∃ wid rid generation r, row.workspaceId = some wid ∧
    row.repositoryConnectionId = some rid ∧ row.connectionGeneration = some generation ∧
    db.connections.get rid = some r ∧ r.workspaceId = wid ∧ lockSystem db wid = true

def AllPlaced (w : World) : Prop :=
  ∀ did row, w.db.deliveries.get did = some row → Placed w.db row

private theorem placed_later {w : World} {a : Action} {old row : WebhookDelivery}
    (h : Placed w.db old) (hkept : SameDelivery old row) : Placed (step a w).2.db row := by
  have hframe := step_frame a w
  constructor
  · rw [hkept.received]
    exact h.received.trans hframe.now
  · intro hpr
    rw [hkept.event] at hpr
    obtain ⟨wid, rid, generation, r, hwid, hrid, hgen, hget, hin, hlock⟩ := h.connection hpr
    obtain ⟨r', hget', hlater⟩ := Connections.step_continue a w rid r hget
    refine ⟨wid, rid, generation, r', hkept.workspace.trans hwid, hkept.repository.trans hrid,
      hkept.generation.trans hgen, hget', hlater.workspace.trans hin, ?_⟩
    simp only [lockSystem, decide_eq_true_eq] at hlock ⊢
    exact hframe.workspaces _ _ hlock

private theorem placed_received {w : World} {event : Event} {stale : Bool} {did jid : UUID}
    {repo : Option RepositorySnapshot} (htarget : Webhook.target w.db event = .ok (some repo)) :
    Placed (step (.receive event stale did jid) w).2.db
      (Webhook.newDelivery w.db.now event repo) := by
  have hframe := step_frame (.receive event stale did jid) w
  refine ⟨hframe.now, fun hpr => ?_⟩
  rcases Webhook.target_eq_some htarget with ⟨hne, -⟩ | ⟨-, s, rfl, hevent⟩
  · exact absurd hpr hne
  · obtain ⟨r, hget, hwid, -⟩ := requireEvent_eq_ok hevent
    have hlock := requireEvent_lock hevent
    refine ⟨s.workspaceId, s.id, s.connectionGeneration, r, rfl, rfl, rfl, ?_, hwid, ?_⟩
    · rw [hframe.connections (by simp [touches])]
      exact hget
    · simp only [lockSystem, decide_eq_true_eq] at hlock ⊢
      exact hframe.workspaces _ _ hlock

theorem placed_step (w : World) (a : Action) (h : AllPlaced w) : AllPlaced (step a w).2 := by
  intro did row hget
  rcases step_changes a w did with hsame | ⟨row', hget', hchange⟩
  · exact placed_later (h did row (hsame.symm.trans hget)) (.refl row)
  · obtain rfl := Option.some.inj (hget.symm.trans hget')
    generalize hold : w.db.deliveries.get did = old at hchange
    cases old with
    | some old => exact placed_later (h did old hold) (change_same hchange)
    | none =>
        cases hchange with
        | received event stale jid repo hact _ _ htarget =>
            subst hact
            exact placed_received htarget

theorem run_placed {now : Instant} {w : World} {trace : Trace} (h : World.Run now trace w) :
    AllPlaced w :=
  h.invariant AllPlaced (by intro did row hget; simp [World.initial, Db.empty] at hget)
    fun w a hw _ => placed_step w a hw

/-- A pull-request delivery whose connection is live passes the first check. -/
theorem prepare_live {db : Db} {row : WebhookDelivery} (h : Placed db row)
    (hpr : row.event = .pullRequest) {rid : UUID} {generation : ℕ}
    (hrid : row.repositoryConnectionId = some rid)
    (hgen : row.connectionGeneration = some generation) (hlive : Live db rid generation) :
    prepare db row = .ok (none, []) := by
  obtain ⟨wid, rid', generation', r, hwid, hrid', hgen', hget, hin, hlock⟩ := h.connection hpr
  obtain rfl := Option.some.inj (hrid.symm.trans hrid')
  obtain rfl := Option.some.inj (hgen.symm.trans hgen')
  have hrepo := requireEvent_of_live hget hin hlock hlive
  simp [prepare, hpr, hwid, hrid, hgen, assertSome, hrepo, bind, Except.bind]

/-- It finds its repository busy while a synchronization is active. -/
theorem apply_busy {db : Db} {row : WebhookDelivery} (h : Placed db row)
    (hpr : row.event = .pullRequest) {rid : UUID} {generation : ℕ}
    (hrid : row.repositoryConnectionId = some rid)
    (hgen : row.connectionGeneration = some generation) (hnumber : row.prNumber ≠ none)
    (hlive : Live db rid generation) (hbusy : Sync.active db rid ≠ none) (targets : List UUID)
    (sid jid : UUID) :
    apply db row targets false sid jid = .ok (some .syncInProgress, db) := by
  obtain ⟨wid, rid', generation', r, hwid, hrid', hgen', hget, hin, hlock⟩ := h.connection hpr
  obtain rfl := Option.some.inj (hrid.symm.trans hrid')
  obtain rfl := Option.some.inj (hgen.symm.trans hgen')
  obtain ⟨number, hnumber⟩ := Option.ne_none_iff_exists'.mp hnumber
  obtain ⟨run, hrun⟩ := Option.ne_none_iff_exists'.mp hbusy
  have hrepo := requireEvent_of_live hget hin hlock hlive
  simp [apply, hpr, hwid, hrid, hgen, hnumber, assertSome, Sync.requestEventSync, hrepo, hrun,
    bind, Except.bind]

/-! ## Attempts -/

/-- No webhook worker loses its lease to a recovery. -/
def uninterrupted : Action → Bool
  | .webhookExecute _ expired _ _ => !expired
  | _ => true

def steady (a : Action) (w : World) : Prop :=
  World.allowed a w ∧ uninterrupted a = true

instance (a : Action) (w : World) : Decidable (steady a w) :=
  inferInstanceAs (Decidable (_ ∧ _))

/-- The last attempt of a delivery of the live connection finds a synchronization
active. -/
def Exhausts (rid : UUID) (generation : ℕ) (a : Action) (w : World) : Prop :=
  ∃ c expired sid jid row job, a = .webhookExecute c expired sid jid ∧
    w.db.deliveries.get c.aggregateId = some row ∧ row.event = .pullRequest ∧
    row.repositoryConnectionId = some rid ∧ row.connectionGeneration = some generation ∧
    row.prNumber ≠ none ∧ Jobs.fence w.db.jobs w.db.now c expired = some job ∧
    job.attempts = job.maxAttempts ∧ Live w.db rid generation ∧ Sync.active w.db rid ≠ none

/-- The delivery is processed and a run for its pull request was created while it
was stored. -/
def Served (trace : Trace) (w : World) (did : UUID) (row : WebhookDelivery) : Prop :=
  row.status = .processed ∧ ∃ sid run, w.db.syncRuns.get sid = some run ∧
    row.repositoryConnectionId = some run.repositoryConnectionId ∧
    row.prNumber = run.requestedPrNumber ∧ row.receivedAt ≤ run.createdAt ∧
    ∃ e ∈ trace, requests e = some (did, sid) ∧ (e.before.db.deliveries.get did).isSome = true ∧
      e.before.db.syncRuns.get sid = none

/-- While the connection is live, its pull-request deliveries wait or are served. -/
def Kept (rid : UUID) (generation : ℕ) (trace : Trace) (w : World) : Prop :=
  Live w.db rid generation → ∀ did row, w.db.deliveries.get did = some row →
    row.event = .pullRequest → row.repositoryConnectionId = some rid →
    row.connectionGeneration = some generation →
    row.status = .pending ∨ Served trace w did row

theorem served_later {trace : Trace} {w : World} {did : UUID} {row : WebhookDelivery}
    (h : Served trace w did row) (a : Action) (e : Transition.Event World Action Outcome) :
    Served (e :: trace) (step a w).2 did row := by
  obtain ⟨hs, sid, run, hrun, hrid, hnumber, hcreated, e', he', hrequests⟩ := h
  refine ⟨hs, sid, ?_⟩
  rcases SyncWorker.step_changes a w sid with hsame | ⟨run', hget', hchange⟩
  · exact ⟨run, hsame.trans hrun, hrid, hnumber, hcreated, e', List.mem_cons_of_mem _ he',
      hrequests⟩
  · rw [hrun] at hchange
    cases hchange with
    | worked _ _ hkept =>
        refine ⟨run', hget', ?_, ?_, ?_, e', List.mem_cons_of_mem _ he', hrequests⟩
        · rw [hkept.repository, hrid]
        · rw [hkept.number, hnumber]
        · rw [hkept.created]
          exact hcreated

/-- A job that is given another attempt leaves its delivery waiting. -/
theorem closed_again {now : Instant} {row : WebhookDelivery} {job job' : Job} {code : Code}
    (h : Jobs.finish now job (some code) true (delayOf (some code)) = .ok job')
    (hlt : job.attempts < job.maxAttempts) :
    (closed now row job' (some code)).status = .pending := by
  obtain ⟨-, -, hstate, -⟩ := Jobs.finish_eq_ok h
  have hready : job'.state = .ready := by
    rw [hstate, if_pos]
    simp [Jobs.again, hlt]
  simp [closed, hready]

theorem closed_last {now : Instant} {row : WebhookDelivery} {job job' : Job} {code : Code}
    (h : Jobs.finish now job (some code) true (delayOf (some code)) = .ok job')
    (heq : job.attempts = job.maxAttempts) :
    (closed now row job' (some code)).status = .failed := by
  obtain ⟨-, -, hstate, -⟩ := Jobs.finish_eq_ok h
  have hdead : job'.state = .dead := by
    rw [hstate, if_neg]
    · rfl
    · simp [Jobs.again, heq]
  simp [closed, hdead]

/-- A delivery of a live connection that was there before the step was there
while the connection was live. -/
private theorem live_before {w : World} {a : Action} {rid did : UUID} {generation : ℕ}
    (hbound : Connections.Bounded w) (hlive : Live (step a w).2.db rid generation)
    {old row : WebhookDelivery} (hold : w.db.deliveries.get did = some old)
    (hkept : SameDelivery old row) (hrid : row.repositoryConnectionId = some rid)
    (hgen : row.connectionGeneration = some generation) : Live w.db rid generation := by
  have horigin : Connections.origin w.db (.delivery did) = some (rid, generation) :=
    Connections.origin_delivery.mpr
      ⟨old, hold, hkept.repository.symm.trans hrid, hkept.generation.symm.trans hgen⟩
  obtain ⟨r, hget, hle⟩ := hbound _ _ _ horigin
  exact Connections.live_since (Connections.step_continue a w) hlive hget hle

private theorem requested_served {trace : Trace} {w : World} {c : Claim} {sid jid : UUID}
    {row : WebhookDelivery} (hold : w.db.deliveries.get c.aggregateId = some row)
    (hplaced : Placed w.db row) {job' : Job} {wid rid : UUID} {generation number : ℕ}
    (hrid : row.repositoryConnectionId = some rid) (hnumber : row.prNumber = some number)
    (hfinish : (closed w.db.now row job' none).status = .processed)
    (hnone : w.db.syncRuns.get sid = none)
    (hruns : (step (.webhookExecute c false sid jid) w).2.db.syncRuns = w.db.syncRuns.put sid
      (Sync.pendingRun w.db.now wid rid generation none .single none (some number) none)) :
    Served (⟨w, .webhookExecute c false sid jid, (step (.webhookExecute c false sid jid) w).1⟩ ::
      trace) (step (.webhookExecute c false sid jid) w).2 c.aggregateId
      (closed w.db.now row job' none) := by
  have hrun := congrArg (fun runs => runs.get sid) hruns
  simp only [Table.get_put_self] at hrun
  have hrequests : requests ⟨w, .webhookExecute c false sid jid,
      (step (.webhookExecute c false sid jid) w).1⟩ = some (c.aggregateId, sid) := by
    simp [requests, hnone, hrun]
  exact ⟨hfinish, sid, _, hrun, hrid, hnumber, hplaced.received, _, List.mem_cons_self, hrequests,
    by simp [hold], hnone⟩

/-- A step that exhausts no delivery keeps them all. -/
theorem kept_step {trace : Trace} {w : World} {rid : UUID} {generation : ℕ}
    (hsound : Lifecycle.Sound (Lifecycle.board w)) (hbound : Connections.Bounded w)
    (hplaced : AllPlaced w) (h : Kept rid generation trace w) (a : Action) (ha : steady a w)
    (hspared : ¬Exhausts rid generation a w) :
    Kept rid generation (⟨w, a, (step a w).1⟩ :: trace) (step a w).2 := by
  intro hlive did row hget hpr hrid hgen
  rcases step_changes a w did with hsame | ⟨row', hget', hchange⟩
  · have hold := hsame.symm.trans hget
    rcases h (live_before hbound hlive hold (.refl row) hrid hgen) did row hold hpr hrid hgen with
      hpending | hserved
    · exact .inl hpending
    · exact .inr (served_later hserved a _)
  obtain rfl := Option.some.inj (hget.symm.trans hget')
  generalize hold : w.db.deliveries.get did = old at hchange
  have hwas : ∀ old', old = some old' → Live w.db rid generation := by
    rintro old' rfl
    exact live_before hbound hlive hold (change_same hchange) hrid hgen
  cases hchange with
  | received => exact .inl rfl
  | canceled c expired sid jid old job targets hact hagg hjob hprepare =>
      have hlive' := prepare_live (hplaced did old hold) hpr hrid hgen (hwas old rfl)
      simp [hlive'] at hprepare
  | finished c expired sid jid old job job' targets code db₁ hact hagg hjob hprepare happly hfinish
      hout hdb =>
      have hexp : expired = false := by
        have hsteady := ha.2
        simpa [hact, uninterrupted] using hsteady
      subst hact hagg hexp
      cases apply_applied happly with
      | recovered h => contradiction
      | suspended _ hne => exact absurd hpr hne
      | @requested wid rid' generation' number jobs _ _ _ hrid' _ hnumber _ _ hnone _ =>
          exact .inr (requested_served hold (hplaced _ old hold) hrid' hnumber
            ((closed_processed hfinish).mpr rfl) hnone (by rw [hdb]))
      | @busy rid' generation' number _ _ hrid' hgen' hnumber hbusy =>
          by_cases hlast : job.attempts = job.maxAttempts
          · obtain rfl := Option.some.inj (hrid'.symm.trans hrid)
            exact absurd ⟨c, false, sid, jid, old, job, rfl, hold, hpr, hrid, hgen,
              by simp [hnumber], hjob, hlast, hwas old rfl, hbusy⟩ hspared
          · have hle := (hsound.wellFormed _ _ (Jobs.fence_eq_some.mp hjob).1).ckJobAttempts.2.1
            exact .inl (closed_again hfinish (lt_of_le_of_ne hle hlast))

/-- An exhausting step loses its delivery. -/
theorem exhausts_failed {w : World} {rid : UUID} {generation : ℕ} {a : Action}
    (hsound : Lifecycle.Sound (Lifecycle.board w)) (hplaced : AllPlaced w) (ha : steady a w)
    (h : Exhausts rid generation a w) : ∃ did row,
      (step a w).2.db.deliveries.get did = some row ∧ row.event = .pullRequest ∧
      row.repositoryConnectionId = some rid ∧ row.connectionGeneration = some generation ∧
      row.status = .failed ∧ row.errorCode = some .syncInProgress ∧
      Live (step a w).2.db rid generation := by
  obtain ⟨c, expired, sid, jid, row, job, rfl, hrow, hpr, hrid, hgen, hnumber, hjob, hlast, hlive,
    hbusy⟩ := h
  have hexp : expired = false := by simpa [uninterrupted] using ha.2
  subst hexp
  have hprepare := prepare_live (hplaced _ row hrow) hpr hrid hgen hlive
  have happly := apply_busy (hplaced _ row hrow) hpr hrid hgen hnumber hlive hbusy [] sid jid
  obtain ⟨hget, hs, -⟩ := Jobs.fence_eq_some.mp hjob
  obtain ⟨job', hfinish⟩ := Jobs.finish_ok ((hsound.wellFormed _ _ hget).history_ne_nil hs)
    w.db.now (some .syncInProgress) true 30
  have hbody : execute w.db c false sid jid = .ok { w.db with
      jobs := w.db.jobs.put c.id job'
      deliveries := w.db.deliveries.put c.aggregateId
        (closed w.db.now row job' (some .syncInProgress)) } := by
    simp [execute, hrow, hprepare, hjob, happly, hfinish, bind, Except.bind]
  refine ⟨c.aggregateId, closed w.db.now row job' (some .syncInProgress), ?_, hpr, hrid, hgen,
    closed_last hfinish hlast, rfl, ?_⟩
  · simp [step, World.commit, hbody]
  · simp only [step, World.commit, hbody]
    exact hlive

/-! ## Runs -/

variable {now : Instant} {w : World} {trace : Trace}

/-- The executions in which no webhook worker is interrupted. -/
abbrev SteadyRun (now : Instant) : Trace → World → Prop :=
  Transition.Exec step steady (initial now)

theorem SteadyRun.run (h : SteadyRun now trace w) : World.Run now trace w :=
  h.mono fun _ _ ha => ha.1

private theorem steady_kept {rid : UUID} {generation : ℕ} (h : SteadyRun now trace w)
    (hspared : ∀ e ∈ trace, ¬Exhausts rid generation e.action e.before) :
    Kept rid generation trace w := by
  have hall : World.Run now trace w ∧
      ((∀ e ∈ trace, ¬Exhausts rid generation e.action e.before) →
        Kept rid generation trace w) := by
    refine h.induct (fun trace w => World.Run now trace w ∧
      ((∀ e ∈ trace, ¬Exhausts rid generation e.action e.before) →
        Kept rid generation trace w)) ⟨.nil, ?_⟩ ?_
    · intro _ hlive
      simp [Live, World.initial, Db.empty] at hlive
    · rintro trace w a ⟨hrun, hkept⟩ ha
      refine ⟨hrun.snoc a ha.1, fun hall => ?_⟩
      exact kept_step (Lifecycle.run_sound hrun) (Connections.run_bounded hrun) (run_placed hrun)
        (hkept fun e he => hall e (List.mem_cons_of_mem _ he)) a ha
        (hall _ List.mem_cons_self)
  exact hall.2 hspared

/-- Along an uninterrupted execution every state keeps the deliveries of a live
connection exactly when no step exhausts one. -/
theorem busy_deliveries_kept (h : SteadyRun now trace w) (rid : UUID) (generation : ℕ) :
    (∀ e ∈ trace, ¬Exhausts rid generation e.action e.before) ↔
      ∀ later earlier w', trace = later ++ earlier → SteadyRun now earlier w' →
        Kept rid generation earlier w' := by
  constructor
  · rintro hspared later earlier w' rfl hearlier
    exact steady_kept hearlier fun e he => hspared e (List.mem_append_right _ he)
  · intro hkept e he hexhausts
    obtain ⟨later, earlier, rfl⟩ := List.append_of_mem he
    obtain ⟨hbefore, hsteady, hout, -⟩ := h.split
    have hafter : SteadyRun now (e :: earlier) (step e.action e.before).2 := by
      have hsnoc := hbefore.snoc e.action hsteady
      rwa [← hout] at hsnoc
    have hrun := SteadyRun.run hbefore
    obtain ⟨did, row, hget, hpr, hrid, hgen, hs, -, hlive⟩ :=
      exhausts_failed (Lifecycle.run_sound hrun) (run_placed hrun) hsteady hexhausts
    rcases hkept later (e :: earlier) _ rfl hafter hlive did row hget hpr hrid hgen with
      hpending | hserved
    · simp [hs] at hpending
    · exact absurd (hs.symm.trans hserved.1) (by simp)

/-! ## Executions -/

/-- The first synchronization waits for the rate limit while a delivery uses up
its three attempts. -/
def exhausting : List Action :=
  Lifecycle.syncing ++ [
    .syncComplete (Lifecycle.syncClaim 1 "first") id
      ⟨[], some .githubRateLimit, true, 3600, none, false⟩ false,
    .receive (opened "one" 1) false 20 21,
    .claim "second" [.processWebhook] [], .webhookExecute (deliveryClaim 21 20 1) false 24 25,
    .tick (seconds 30),
    .claim "second" [.processWebhook] [], .webhookExecute (deliveryClaim 21 20 2) false 24 25,
    .tick (seconds 30),
    .claim "second" [.processWebhook] [], .webhookExecute (deliveryClaim 21 20 3) false 24 25]

private theorem exhausting_failed :
    SteadyRun 0 (Transition.events step (initial 0) exhausting) (Lifecycle.reach exhausting) ∧
      Live (Lifecycle.reach exhausting).db 3 1 ∧
      ∃ row, (Lifecycle.reach exhausting).db.deliveries.get 20 = some row ∧
        row.event = .pullRequest ∧ row.repositoryConnectionId = some 3 ∧
        row.connectionGeneration = some 1 ∧ row.status = .failed ∧
        row.errorCode = some .syncInProgress := by
  have hlive : ((Lifecycle.reach exhausting).db.connections.get 3).map
      (fun r => (r.status, r.connectionGeneration)) = some (.active, 1) := by decide +kernel
  have hrow : ((Lifecycle.reach exhausting).db.deliveries.get 20).map
      (fun row => (row.event, row.repositoryConnectionId, row.connectionGeneration, row.status,
        row.errorCode)) =
      some (.pullRequest, some 3, some 1, .failed, some .syncInProgress) := by decide +kernel
  obtain ⟨r, hget, hr⟩ := Option.map_eq_some_iff.mp hlive
  obtain ⟨row, hget', heq⟩ := Option.map_eq_some_iff.mp hrow
  simp only [Prod.mk.injEq] at hr heq
  exact ⟨Transition.exec_run _ _ (by decide +kernel), ⟨r, hget, hr⟩, row, hget', heq⟩

theorem busy_deliveries_kept_exhausting :
    ∃ e ∈ Transition.events step (initial 0) exhausting, Exhausts 3 1 e.action e.before := by
  obtain ⟨hrun, hlive, row, hget, hpr, hrid, hgen, hs, -⟩ := exhausting_failed
  by_contra hnone
  have hspared : ∀ e ∈ Transition.events step (initial 0) exhausting,
      ¬Exhausts 3 1 e.action e.before := fun e he hex => hnone ⟨e, he, hex⟩
  rcases (busy_deliveries_kept hrun 3 1).mp hspared [] _ _ rfl hrun hlive 20 row hget hpr hrid
    hgen with hpending | hserved
  · simp [hs] at hpending
  · exact absurd (hs.symm.trans hserved.1) (by simp)

/-- A delivery of a connection that stays live fails because its repository is
busy, although no worker is interrupted. -/
theorem busy_delivery_lost : ∃ trace w, SteadyRun 0 trace w ∧ Live w.db 3 1 ∧
    ∃ row, w.db.deliveries.get 20 = some row ∧ row.event = .pullRequest ∧
      row.repositoryConnectionId = some 3 ∧ row.connectionGeneration = some 1 ∧
      row.status = .failed ∧ row.errorCode = some .syncInProgress :=
  ⟨_, _, exhausting_failed⟩

end Prism.WebhookWorker
