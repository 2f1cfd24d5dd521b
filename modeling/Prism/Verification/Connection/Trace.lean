import Prism.Verification.Analysis.Trace
import Prism.Verification.Connection.Semantics
import Prism.Verification.Review.Semantics
import Prism.Verification.Sync.Semantics
import Prism.Verification.Webhook.Semantics

/-! Work is bound to the generation its connection had when it was created. -/

namespace Prism.Connections

open World

/-- A unit of work whose results belong to a connection generation. -/
inductive Work where
  | sync (sid : UUID)
  | analysis (aid : UUID)
  | review (rid : UUID)
  | delivery (did : UUID)
  deriving DecidableEq, Repr

/-- The connection and the generation a unit of work belongs to. -/
def origin (db : Db) : Work → Option (UUID × ℕ)
  | .sync sid => (db.syncRuns.get sid).map fun run =>
      (run.repositoryConnectionId, run.connectionGeneration)
  | .analysis aid => (db.analysisRuns.get aid).map fun run =>
      (run.repositoryConnectionId, run.connectionGeneration)
  | .review rid => (db.reviewRuns.get rid).map fun run =>
      (run.repositoryConnectionId, run.connectionGeneration)
  | .delivery did => (db.deliveries.get did).bind fun row =>
      row.repositoryConnectionId.bind fun rid => row.connectionGeneration.map (Prod.mk rid)

/-- The step stores a result of the work: pull requests, rows or the completion
of an analysis, the answer of a review, or the sync run a delivery asks for. -/
def Stores (a : Action) (w : World) : Work → Prop
  | .sync sid =>
    (∃ c ids o expired, a = .syncComplete c ids o expired ∧ c.aggregateId = sid) ∧
      ∃ pid, (step a w).2.db.pullRequests.get pid ≠ w.db.pullRequests.get pid
  | .analysis aid =>
    ¬AnalysisWorker.SameRows w.db (step a w).2.db aid ∨
      ∃ run, (step a w).2.db.analysisRuns.get aid = some run ∧ run.status = .completed ∧
        w.db.analysisRuns.get aid ≠ some run
  | .review rid =>
    ∃ answer, ((step a w).2.db.reviewRuns.get rid).bind (·.result) = some answer ∧
      (w.db.reviewRuns.get rid).bind (·.result) ≠ some answer
  | .delivery did =>
    (∃ c expired sid jid, a = .webhookExecute c expired sid jid ∧ c.aggregateId = did) ∧
      ∃ sid, (step a w).2.db.syncRuns.get sid ≠ w.db.syncRuns.get sid

/-! ## Origins -/

theorem origin_delivery {db : Db} {did rid : UUID} {generation : ℕ} :
    origin db (.delivery did) = some (rid, generation) ↔ ∃ row,
      db.deliveries.get did = some row ∧ row.repositoryConnectionId = some rid ∧
        row.connectionGeneration = some generation := by
  simp only [origin, Option.bind_eq_some_iff, Option.map_eq_some_iff, Prod.mk.injEq]
  constructor
  · rintro ⟨row, hget, rid', hrid, generation', hgen, rfl, rfl⟩
    exact ⟨row, hget, hrid, hgen⟩
  · rintro ⟨row, hget, hrid, hgen⟩
    exact ⟨row, hget, rid, hrid, generation, hgen, rfl, rfl⟩

/-- Work keeps its origin. -/
theorem origin_kept {a : Action} {w : World} (ha : World.allowed a w) {work : Work}
    {rid : UUID} {generation : ℕ} (h : origin w.db work = some (rid, generation)) :
    origin (step a w).2.db work = some (rid, generation) := by
  cases work with
  | sync sid =>
      obtain ⟨row, hget, hrow⟩ := Option.map_eq_some_iff.mp h
      rcases SyncWorker.step_changes a w sid with hsame | ⟨run, hget', hchange⟩
      · rw [← h, origin, hsame, origin]
      · rw [hget] at hchange
        cases hchange with
        | worked _ _ hkept =>
            rw [origin, hget', Option.map_some, hkept.repository, hkept.generation, hrow]
  | analysis aid =>
      obtain ⟨row, hget, hrow⟩ := Option.map_eq_some_iff.mp h
      cases AnalysisWorker.step_change a w ha aid with
      | same hsame => rw [← h, origin, hsame, origin]
      | started _ hnone => simp [hget] at hnone
      | worked row' run hrow' _ hget' _ hkept =>
          obtain rfl := Option.some.inj (hget.symm.trans hrow')
          rw [origin, hget', Option.map_some, hkept.repository, hkept.generation, hrow]
      | saved _ _ _ _ _ _ _ row' run _ _ _ hrow' _ _ _ hget' _ hkept =>
          obtain rfl := Option.some.inj (hget.symm.trans hrow')
          rw [origin, hget', Option.map_some, hkept.repository, hkept.generation, hrow]
  | review vid =>
      obtain ⟨row, hget, hrow⟩ := Option.map_eq_some_iff.mp h
      rcases ReviewWorker.step_changes a w vid with hsame | ⟨run, hget', hchange⟩
      · rw [← h, origin, hsame, origin]
      · rw [hget] at hchange
        have hkept : ReviewWorker.SameReview row run := by
          cases hchange with
          | worked _ _ hkept => exact hkept
          | reserved _ _ _ _ _ hkept => exact hkept
        rw [origin, hget', Option.map_some, hkept.repository, hkept.generation, hrow]
  | delivery did =>
      obtain ⟨row, hget, hrid, hgen⟩ := origin_delivery.mp h
      obtain ⟨row', hget', hkept⟩ := WebhookWorker.step_kept hget
      exact origin_delivery.mpr
        ⟨row', hget', hkept.repository.trans hrid, hkept.generation.trans hgen⟩

/-- New work belongs to a connection that is live at its generation. -/
theorem origin_new {a : Action} {w : World} (ha : World.allowed a w) {work : Work}
    {rid : UUID} {generation : ℕ} (hnone : origin w.db work = none)
    (h : origin (step a w).2.db work = some (rid, generation)) :
    Live (step a w).2.db rid generation := by
  cases work with
  | sync sid =>
      have hfree : w.db.syncRuns.get sid = none := Option.map_eq_none_iff.mp hnone
      obtain ⟨run, hget, hrun⟩ := Option.map_eq_some_iff.mp h
      obtain ⟨rfl, rfl⟩ := Prod.mk.inj hrun
      rcases SyncWorker.step_changes a w sid with hsame | ⟨run', hget', hchange⟩
      · simp [hsame, hfree] at hget
      · obtain rfl := Option.some.inj (hget.symm.trans hget')
        rw [hfree] at hchange
        cases hchange with
        | asked _ _ _ hlive => exact hlive
        | event _ _ _ _ _ _ _ hlive => exact hlive
  | analysis aid =>
      have hfree : w.db.analysisRuns.get aid = none := Option.map_eq_none_iff.mp hnone
      obtain ⟨run, hget, hrun⟩ := Option.map_eq_some_iff.mp h
      obtain ⟨rfl, rfl⟩ := Prod.mk.inj hrun
      cases AnalysisWorker.step_change a w ha aid with
      | same hsame => simp [hsame, hfree] at hget
      | started run' _ hget' _ hlive =>
          obtain rfl := Option.some.inj (hget.symm.trans hget')
          exact hlive
      | worked _ _ hrow => simp [hfree] at hrow
      | saved _ _ _ _ _ _ _ _ _ _ _ _ hrow => simp [hfree] at hrow
  | review vid =>
      have hfree : w.db.reviewRuns.get vid = none := Option.map_eq_none_iff.mp hnone
      obtain ⟨run, hget, hrun⟩ := Option.map_eq_some_iff.mp h
      obtain ⟨rfl, rfl⟩ := Prod.mk.inj hrun
      rcases ReviewWorker.step_changes a w vid with hsame | ⟨run', hget', hchange⟩
      · simp [hsame, hfree] at hget
      · obtain rfl := Option.some.inj (hget.symm.trans hget')
        rw [hfree] at hchange
        cases hchange with
        | started _ _ _ hlive => exact hlive
  | delivery did =>
      obtain ⟨row, hget, hrid, hgen⟩ := origin_delivery.mp h
      cases hold : w.db.deliveries.get did with
      | some old =>
          obtain ⟨row', hget', hkept⟩ := WebhookWorker.step_kept (a := a) hold
          obtain rfl := Option.some.inj (hget.symm.trans hget')
          have horigin : origin w.db (.delivery did) = some (rid, generation) :=
            origin_delivery.mpr
              ⟨old, hold, hkept.repository.symm.trans hrid, hkept.generation.symm.trans hgen⟩
          simp [hnone] at horigin
      | none =>
          rcases WebhookWorker.step_changes a w did with hsame | ⟨row', hget', hchange⟩
          · simp [hsame, hold] at hget
          · obtain rfl := Option.some.inj (hget.symm.trans hget')
            rw [hold] at hchange
            cases hchange with
            | received event stale jid repo hact _ _ htarget =>
                rcases Webhook.target_eq_some htarget with ⟨-, rfl⟩ | ⟨-, r, rfl, hevent⟩
                · simp [Webhook.newDelivery] at hrid
                · obtain rfl := Option.some.inj hrid
                  obtain rfl := Option.some.inj hgen
                  have hlive := requireEvent_live hevent
                  rw [Live, (step_frame a w).connections (by simp [hact, touches])]
                  exact hlive

/-! ## Bounds -/

/-- No work is ahead of its connection. -/
def Bounded (w : World) : Prop :=
  ∀ work rid generation, origin w.db work = some (rid, generation) →
    ∃ r, w.db.connections.get rid = some r ∧ generation ≤ r.connectionGeneration

theorem bounded_initial (now : Instant) : Bounded (World.initial now) := by
  intro work rid generation h
  cases work <;> simp [origin, World.initial, Db.empty] at h

theorem bounded_step (w : World) (a : Action) (h : Bounded w) (ha : World.allowed a w) :
    Bounded (step a w).2 := by
  intro work rid generation hwork
  cases hold : origin w.db work with
  | none =>
      obtain ⟨r, hget, -, hgen⟩ := origin_new ha hold hwork
      exact ⟨r, hget, hgen.ge⟩
  | some o =>
      obtain ⟨rid', generation'⟩ := o
      have hkept := origin_kept ha hold
      obtain ⟨rfl, rfl⟩ := Prod.mk.inj (Option.some.inj (hkept.symm.trans hwork))
      obtain ⟨r, hget, hle⟩ := h work _ _ hold
      obtain ⟨r', hget', hlater⟩ := step_continue a w _ r hget
      exact ⟨r', hget', hle.trans hlater.generation_le⟩

variable {now : Instant} {w w' : World} {trace later : Trace}

theorem run_bounded (h : World.Run now trace w) : Bounded w :=
  h.invariant Bounded (bounded_initial now) bounded_step

theorem path_origin (h : World.Path w later w') {work : Work} {rid : UUID} {generation : ℕ}
    (hwork : origin w.db work = some (rid, generation)) :
    origin w'.db work = some (rid, generation) :=
  h.invariant (fun w => origin w.db work = some (rid, generation)) hwork
    fun _ _ hw ha => origin_kept ha hw

/-- Work whose connection has moved on stays behind for ever. -/
theorem path_stale (hbound : Bounded w) (h : World.Path w later w') {work : Work} {rid : UUID}
    {generation : ℕ} (hwork : origin w.db work = some (rid, generation))
    (hstale : ¬Live w.db rid generation) : ¬Live w'.db rid generation := by
  intro hlive
  obtain ⟨r, hget, hle⟩ := hbound work rid generation hwork
  exact hstale (live_since (path_continue h) hlive hget hle)

/-! ## Results -/

private theorem delivery_live {c : Claim} {expired : Bool} {sid jid : UUID} {sid' : UUID}
    (h : (step (.webhookExecute c expired sid jid) w).2.db.syncRuns.get sid' ≠
      w.db.syncRuns.get sid') :
    ∃ rid generation, origin w.db (.delivery c.aggregateId) = some (rid, generation) ∧
      Live w.db rid generation := by
  simp only [step, World.commit] at h
  split at h
  · rename_i db' hbody
    rcases WebhookWorker.execute_cases hbody with
      ⟨rfl, -⟩ | ⟨row, code, targets, job, job', hrow, -, -, hend⟩
    · exact absurd rfl h
    rcases hend with ⟨-, -, rfl⟩ | ⟨-, code', db₁, happly, -, rfl⟩
    · exact absurd rfl h
    · cases WebhookWorker.apply_applied happly with
      | requested _ _ _ hrid hgen _ hlive =>
          exact ⟨_, _, origin_delivery.mpr ⟨row, hrow, hrid, hgen⟩, hlive⟩
      | _ => exact absurd rfl h
  · exact absurd rfl h

/-- A result is stored only while the connection is live at the generation the
work belongs to. -/
theorem stores_live {a : Action} (ha : World.allowed a w) {work : Work} (h : Stores a w work) :
    ∃ rid generation, origin w.db work = some (rid, generation) ∧ Live w.db rid generation := by
  cases work with
  | sync sid =>
      obtain ⟨⟨c, ids, o, expired, rfl, rfl⟩, pid, hne⟩ := h
      rcases SyncWorker.step_pullRequests _ w pid with
        hsame | ⟨c', _, _, _, run, -, hact, hrun, hlive, -⟩
      · exact absurd hsame hne
      · obtain ⟨rfl, -⟩ := Action.syncComplete.inj hact
        exact ⟨_, _, Option.map_eq_some_iff.mpr ⟨run, hrun, rfl⟩, hlive⟩
  | analysis aid =>
      cases AnalysisWorker.step_change a w ha aid with
      | same hget hrows =>
          rcases h with hne | ⟨run, hrun, -, hne⟩
          · exact absurd hrows hne
          · exact absurd (hget.symm.trans hrun) hne
      | started run' _ hget hs _ hrows =>
          rcases h with hne | ⟨run, hrun, hdone, -⟩
          · exact absurd hrows hne
          · obtain rfl := Option.some.inj (hget.symm.trans hrun)
            simp [hs] at hdone
      | worked _ run' _ _ hget hs _ hrows =>
          rcases h with hne | ⟨run, hrun, hdone, -⟩
          · exact absurd hrows hne
          · obtain rfl := Option.some.inj (hget.symm.trans hrun)
            exact absurd hdone hs
      | saved _ _ _ _ _ _ _ row _ _ _ _ hrow _ _ hlive =>
          exact ⟨_, _, Option.map_eq_some_iff.mpr ⟨row, hrow, rfl⟩, hlive⟩
  | review vid =>
      obtain ⟨answer, hanswer, hne⟩ := h
      rcases ReviewWorker.step_changes a w vid with hsame | ⟨run, hget, hchange⟩
      · rw [hsame] at hanswer
        exact absurd hanswer hne
      · rw [hget, Option.bind_some] at hanswer
        generalize hold : w.db.reviewRuns.get vid = old at hchange hne
        cases hchange with
        | started _ _ hresult => simp [hresult] at hanswer
        | reserved _ _ row _ _ _ _ _ hresult =>
            rw [hresult] at hanswer
            exact absurd hanswer hne
        | worked row _ _ _ hresult =>
            rcases hresult with hresult | hresult | hlive
            · rw [hresult] at hanswer
              exact absurd hanswer hne
            · simp [hresult] at hanswer
            · exact ⟨_, _, Option.map_eq_some_iff.mpr ⟨row, hold, rfl⟩, hlive⟩
  | delivery did =>
      obtain ⟨⟨c, expired, sid, jid, rfl, rfl⟩, sid', hne⟩ := h
      exact delivery_live hne

/-- Pull requests are results of the synchronization that stores them. -/
theorem pullRequests_stored {a : Action} {pid : UUID}
    (h : (step a w).2.db.pullRequests.get pid ≠ w.db.pullRequests.get pid) :
    ∃ sid row, Stores a w (.sync sid) ∧ (step a w).2.db.pullRequests.get pid = some row ∧
      origin w.db (.sync sid) =
        some (row.repositoryConnectionId, row.syncedConnectionGeneration) := by
  rcases SyncWorker.step_pullRequests a w pid with
    hsame | ⟨c, ids, o, expired, run, row, hact, hrun, -, hrow, hrid, hgen⟩
  · exact absurd hsame h
  · refine ⟨c.aggregateId, row, ⟨⟨c, ids, o, expired, hact, rfl⟩, pid, h⟩, hrow, ?_⟩
    rw [hrid, hgen, origin, hrun, Option.map_some]

/-- A system run is the result of the delivery that asks for it. -/
theorem systemRun_stored {a : Action} {sid : UUID} {run : PullRequestSyncRun}
    (hnone : w.db.syncRuns.get sid = none)
    (hrun : (step a w).2.db.syncRuns.get sid = some run) (hactor : run.actorType = .system) :
    ∃ did, Stores a w (.delivery did) ∧ origin w.db (.delivery did) =
      some (run.repositoryConnectionId, run.connectionGeneration) := by
  rcases SyncWorker.step_changes a w sid with hsame | ⟨run', hget, hchange⟩
  · simp [hsame, hnone] at hrun
  · obtain rfl := Option.some.inj (hrun.symm.trans hget)
    rw [hnone] at hchange
    cases hchange with
    | asked _ huser => simp [huser] at hactor
    | event _ c jid _ hact hreq =>
        obtain ⟨row, hrow, -, hrid, hgen, -⟩ := hreq
        refine ⟨c.aggregateId, ⟨⟨c, false, sid, jid, hact, rfl⟩, sid, ?_⟩,
          origin_delivery.mpr ⟨row, hrow, hrid, hgen⟩⟩
        simp [hrun, hnone]

/-! ## The fence -/

/-- In every reachable state a step that activates a connection raises its
generation, new work belongs to a connection that is live at its generation, and
results are stored only while it still is; and whatever continues, work whose
connection is not live at its generation stores nothing. -/
theorem results_fenced (h : World.Run now trace w) :
    (∀ a, World.allowed a w →
      (∀ rid r r', w.db.connections.get rid = some r →
        (step a w).2.db.connections.get rid = some r' → r.status ≠ .active →
        r'.status = .active → r.connectionGeneration < r'.connectionGeneration) ∧
      (∀ work rid generation, origin w.db work = none →
        origin (step a w).2.db work = some (rid, generation) →
        Live (step a w).2.db rid generation) ∧
      (∀ pid, (step a w).2.db.pullRequests.get pid ≠ w.db.pullRequests.get pid →
        ∃ sid row, Stores a w (.sync sid) ∧ (step a w).2.db.pullRequests.get pid = some row ∧
          origin w.db (.sync sid) =
            some (row.repositoryConnectionId, row.syncedConnectionGeneration)) ∧
      (∀ sid run, w.db.syncRuns.get sid = none → (step a w).2.db.syncRuns.get sid = some run →
        run.actorType = .system → ∃ did, Stores a w (.delivery did) ∧
          origin w.db (.delivery did) =
            some (run.repositoryConnectionId, run.connectionGeneration)) ∧
      ∀ work, Stores a w work → ∃ rid generation,
        origin w.db work = some (rid, generation) ∧ Live w.db rid generation) ∧
    ∀ work rid generation, origin w.db work = some (rid, generation) →
      ¬Live w.db rid generation → ∀ later w', World.Path w later w' →
        ∀ e ∈ later, ¬Stores e.action e.before work := by
  constructor
  · intro a ha
    refine ⟨?_, ?_, ?_, ?_, ?_⟩
    · intro rid r r' hget hget' hne hactive
      obtain ⟨r'', hget'', hlater⟩ := step_continue a w rid r hget
      obtain rfl := Option.some.inj (hget'.symm.trans hget'')
      exact hlater.reactivated hne hactive
    · exact fun _ _ _ hnone hnew => origin_new ha hnone hnew
    · exact fun _ hne => pullRequests_stored hne
    · exact fun _ _ hnone hrun hactor => systemRun_stored hnone hrun hactor
    · exact fun _ hstores => stores_live ha hstores
  · intro work rid generation hwork hstale later w' hexec e he hstores
    obtain ⟨⟨earlier, hbefore⟩, hallowed, -⟩ := hexec.passed he
    obtain ⟨rid', generation', hwork', hlive⟩ := stores_live hallowed hstores
    have hkept := path_origin hbefore hwork
    obtain ⟨rfl, rfl⟩ := Prod.mk.inj (Option.some.inj (hkept.symm.trans hwork'))
    exact path_stale (run_bounded h) hbefore hwork hstale hlive

/-- The owner disconnects while the synchronization is fetching. -/
def disconnecting : List Action :=
  Lifecycle.syncing ++ [.disconnect 2 1 3]

/-- The completion of a worker that has not noticed. -/
def completing : Action :=
  .syncComplete (Lifecycle.syncClaim 1 "first") id AnalysisWorker.pulled false

theorem results_fenced_disconnecting :
    origin (Lifecycle.reach disconnecting).db (.sync 5) = some (3, 1) ∧
      ¬Stores completing (Lifecycle.reach disconnecting) (.sync 5) := by
  have hwork : origin (Lifecycle.reach disconnecting).db (.sync 5) = some (3, 1) := by
    decide +kernel
  have hstale : ¬Live (Lifecycle.reach disconnecting).db 3 1 := by
    rintro ⟨r, hget, hactive, -⟩
    have hclosed : ((Lifecycle.reach disconnecting).db.connections.get 3).map (·.status) =
        some .disconnected := by decide +kernel
    simp [hget, hactive] at hclosed
  have hpath : Path (Lifecycle.reach disconnecting)
      [⟨Lifecycle.reach disconnecting, completing, _⟩] _ :=
    Transition.exec_run _ [completing] (by decide +kernel)
  exact ⟨hwork, (results_fenced (Transition.exec_run (initial 0) disconnecting
    (by decide +kernel))).2 (.sync 5) 3 1 hwork hstale _ _ hpath _ (List.mem_singleton_self _)⟩

end Prism.Connections
