import Prism.Verification.System.Equations

/-! How a sync run can change in one step, and which steps store pull requests. -/

namespace Prism.SyncWorker

open World

/-- The columns of a run that are written once. -/
structure SameSync (row run : PullRequestSyncRun) : Prop where
  repository : run.repositoryConnectionId = row.repositoryConnectionId
  generation : run.connectionGeneration = row.connectionGeneration
  actor : run.actorType = row.actorType
  number : run.requestedPrNumber = row.requestedPrNumber
  created : run.createdAt = row.createdAt

/-- The delivery a system run is requested for. -/
def RequestedBy (db : Db) (run : PullRequestSyncRun) (did : UUID) : Prop :=
  ∃ row, db.deliveries.get did = some row ∧ row.event = .pullRequest ∧
    row.repositoryConnectionId = some run.repositoryConnectionId ∧
    row.connectionGeneration = some run.connectionGeneration ∧
    row.prNumber = run.requestedPrNumber

/-- How the run under an identifier can change in one step. -/
inductive Change (w : World) (a : Action) (sid : UUID) :
    Option PullRequestSyncRun → PullRequestSyncRun → Prop where
  | asked (run : PullRequestSyncRun) : run.actorType = .user → run.createdAt = w.db.now →
      Live (step a w).2.db run.repositoryConnectionId run.connectionGeneration →
      Change w a sid none run
  | event (run : PullRequestSyncRun) (c : Claim) (jid : UUID) : run.actorType = .system →
      a = .webhookExecute c false sid jid → RequestedBy w.db run c.aggregateId →
      Live w.db run.repositoryConnectionId run.connectionGeneration →
      Live (step a w).2.db run.repositoryConnectionId run.connectionGeneration →
      run.createdAt = w.db.now → Change w a sid none run
  | worked (row run : PullRequestSyncRun) : SameSync row run → Change w a sid (some row) run

/-- One run changed as described, the others not at all. -/
def Changes (w : World) (a : Action) (db' : Db) : Prop :=
  ∀ sid, db'.syncRuns.get sid = w.db.syncRuns.get sid ∨
    ∃ run, db'.syncRuns.get sid = some run ∧ Change w a sid (w.db.syncRuns.get sid) run

private theorem changes_put {w : World} {a : Action} {db' : Db} {sid : UUID}
    {run : PullRequestSyncRun} (hput : db'.syncRuns = w.db.syncRuns.put sid run)
    (h : Change w a sid (w.db.syncRuns.get sid) run) : Changes w a db' := by
  intro sid'
  rw [hput]
  by_cases hid : sid' = sid
  · subst sid'
    exact .inr ⟨run, Table.get_put_self .., h⟩
  · exact .inl (Table.get_put_of_ne _ _ hid)

private theorem changes_same {w : World} {a : Action} {db' : Db}
    (h : db'.syncRuns = w.db.syncRuns) : Changes w a db' :=
  fun _ => .inl (by rw [h])

private theorem changes_commit {w : World} {a : Action} {body : Tx Db}
    (hstep : step a w = w.commit body) (h : ∀ db', body = .ok db' →
      (step a w).2.db = db' → Changes w a db') :
    Changes w a (step a w).2.db := by
  cases hbody : body with
  | ok db' =>
      have heq : (step a w).2.db = db' := by rw [hstep, hbody]; rfl
      rw [heq]
      exact h db' hbody heq
  | error f =>
      have heq : (step a w).2.db = w.db := by rw [hstep, hbody]; rfl
      rw [heq]
      exact changes_same rfl

/-- A user's request inserts a run for a connection that is live in the same
transaction. -/
private theorem enqueue_changes {w : World} {a : Action} {db₁ db' : Db}
    {uid wid rid sid jid id : UUID} {page : ℕ} {number : Option ℕ}
    (h : Sync.enqueue db₁ uid wid rid page number sid jid = .ok (id, db'))
    (hruns : db₁.syncRuns = w.db.syncRuns) (hnow : db₁.now = w.db.now)
    (hresult : (step a w).2.db = db') : Changes w a db' := by
  rcases Sync.enqueue_cases h with rfl | ⟨-, repo, cursor, cached, hrepo, hinsert⟩
  · exact changes_same hruns
  · obtain ⟨hnone, jobs, -, rfl⟩ := Sync.insertRun_eq_ok.mp hinsert
    obtain ⟨-, -, hlive⟩ := requireRepository_live hrepo
    rw [hruns] at hnone
    refine changes_put (by rw [← hruns]) ?_
    rw [hnone]
    refine .asked _ rfl hnow ?_
    rw [hresult]
    exact hlive

theorem step_changes (a : Action) (w : World) : Changes w a (step a w).2.db := by
  by_cases hquiet : Area.syncRuns ∉ touches a
  · exact changes_same ((step_frame a w).syncRuns hquiet)
  cases a with
  | connect uid wid verified rid cid sid jid =>
      refine changes_commit rfl fun db' h hresult => ?_
      obtain ⟨id, db₁, run, hconnect, hsync⟩ := connectOne_cases h
      have hfirst : db₁.syncRuns = w.db.syncRuns ∧ db₁.now = w.db.now := by
        rcases connect_cases hconnect with ⟨row, -, -, rfl⟩ | ⟨-, -, configs, rfl⟩ <;>
          exact ⟨rfl, rfl⟩
      exact enqueue_changes hsync hfirst.1 hfirst.2 hresult
  | sync uid wid rid page number sid jid =>
      refine changes_commit rfl fun db' h hresult => ?_
      obtain ⟨⟨id, db₁⟩, hbody, rfl⟩ := (Tx.map_eq_ok ..).mp h
      exact enqueue_changes hbody rfl rfl hresult
  | syncBegin c =>
      refine changes_commit rfl fun db' h _ => ?_
      obtain ⟨⟨plan, db₁⟩, hbody, rfl⟩ := (Tx.map_eq_ok ..).mp h
      rcases begin_cases hbody with ⟨-, rfl⟩ | ⟨run, repo, job, hget, -, -, -, -, rfl⟩
      · exact changes_same rfl
      · refine changes_put rfl ?_
        rw [hget]
        exact .worked run _ ⟨rfl, rfl, rfl, rfl, rfl⟩
  | syncComplete c ids o expired =>
      refine changes_commit rfl fun db' h _ => ?_
      rcases complete_cases h with
        rfl | ⟨run, code, retry, job, job', run', pulls, connections, hget, -, -, -, hstored, rfl⟩
      · exact changes_same rfl
      · refine changes_put rfl ?_
        rw [hget]
        cases hstored <;> exact .worked run _ ⟨rfl, rfl, rfl, rfl, rfl⟩
  | webhookExecute c expired sid jid =>
      refine changes_commit rfl fun db' h hresult => ?_
      rcases WebhookWorker.execute_cases h with
        ⟨rfl, -⟩ | ⟨row, code, targets, job, job', hrow, -, -, hend⟩
      · exact changes_same rfl
      rcases hend with ⟨-, -, rfl⟩ | ⟨-, code', db₁, happly, -, rfl⟩
      · exact changes_same rfl
      · cases WebhookWorker.apply_applied happly with
        | requested hexp hpr hwid hrid hgen hnumber hlive hidle hnone hjobs =>
            subst hexp
            refine changes_put rfl ?_
            rw [hnone]
            refine .event _ c jid rfl rfl ⟨row, hrow, hpr, hrid, hgen, hnumber⟩ hlive ?_ rfl
            rw [hresult]
            exact hlive
        | _ => exact changes_same rfl
  | _ => exact absurd (by simp [touches]) hquiet

/-! ## Insertions -/

/-- A run that is new is the only change, and its connection had no active run. -/
def Inserts (w : World) (db' : Db) : Prop :=
  ∀ sid run, w.db.syncRuns.get sid = none → db'.syncRuns.get sid = some run →
    Sync.active w.db run.repositoryConnectionId = none ∧
      ∀ sid', sid' ≠ sid → db'.syncRuns.get sid' = w.db.syncRuns.get sid'

private theorem inserts_put {w : World} {db' : Db} {sid : UUID} {run : PullRequestSyncRun}
    (hput : db'.syncRuns = w.db.syncRuns.put sid run)
    (h : w.db.syncRuns.get sid = none → Sync.active w.db run.repositoryConnectionId = none) :
    Inserts w db' := by
  intro sid' run' hnone hget
  rw [hput] at hget ⊢
  rcases (Table.get_put_eq_some ..).mp hget with ⟨rfl, rfl⟩ | ⟨-, hget⟩
  · exact ⟨h hnone, fun sid' hne => Table.get_put_of_ne _ _ hne⟩
  · rw [hnone] at hget
    contradiction

private theorem inserts_same {w : World} {db' : Db} (h : db'.syncRuns = w.db.syncRuns) :
    Inserts w db' := by
  intro sid run hnone hget
  rw [h, hnone] at hget
  contradiction

private theorem inserts_commit {w : World} {body : Tx Db}
    (h : ∀ db', body = .ok db' → Inserts w db') : Inserts w (w.commit body).2.db := by
  unfold World.commit
  split
  · exact h _ rfl
  · exact inserts_same rfl

private theorem enqueue_inserts {w : World} {db₁ db' : Db} {uid wid rid sid jid id : UUID}
    {page : ℕ} {number : Option ℕ}
    (h : Sync.enqueue db₁ uid wid rid page number sid jid = .ok (id, db'))
    (hruns : db₁.syncRuns = w.db.syncRuns) : Inserts w db' := by
  rcases Sync.enqueue_cases h with rfl | ⟨hidle, repo, cursor, cached, hrepo, hinsert⟩
  · exact inserts_same hruns
  · obtain ⟨hnone, jobs, -, rfl⟩ := Sync.insertRun_eq_ok.mp hinsert
    refine inserts_put (by rw [← hruns]) fun _ => ?_
    rw [Sync.active_eq_none] at hidle ⊢
    rwa [← hruns]

theorem step_inserts (a : Action) (w : World) : Inserts w (step a w).2.db := by
  by_cases hquiet : Area.syncRuns ∉ touches a
  · exact inserts_same ((step_frame a w).syncRuns hquiet)
  cases a with
  | connect uid wid verified rid cid sid jid =>
      refine inserts_commit fun db' h => ?_
      obtain ⟨id, db₁, run, hconnect, hsync⟩ := connectOne_cases h
      have hruns : db₁.syncRuns = w.db.syncRuns := by
        rcases connect_cases hconnect with ⟨row, -, -, rfl⟩ | ⟨-, -, configs, rfl⟩ <;> rfl
      exact enqueue_inserts hsync hruns
  | sync uid wid rid page number sid jid =>
      refine inserts_commit fun db' h => ?_
      obtain ⟨⟨id, db₁⟩, hbody, rfl⟩ := (Tx.map_eq_ok ..).mp h
      exact enqueue_inserts hbody rfl
  | syncBegin c =>
      refine inserts_commit fun db' h => ?_
      obtain ⟨⟨plan, db₁⟩, hbody, rfl⟩ := (Tx.map_eq_ok ..).mp h
      rcases begin_cases hbody with ⟨-, rfl⟩ | ⟨run, repo, job, hget, -, -, -, -, rfl⟩
      · exact inserts_same rfl
      · exact inserts_put rfl fun hnone => by simp [hget] at hnone
  | syncComplete c ids o expired =>
      refine inserts_commit fun db' h => ?_
      rcases complete_cases h with
        rfl | ⟨run, code, retry, job, job', run', pulls, connections, hget, -, -, -, -, rfl⟩
      · exact inserts_same rfl
      · exact inserts_put rfl fun hnone => by simp [hget] at hnone
  | webhookExecute c expired sid jid =>
      refine inserts_commit fun db' h => ?_
      rcases WebhookWorker.execute_cases h with
        ⟨rfl, -⟩ | ⟨row, code, targets, job, job', hrow, -, -, hend⟩
      · exact inserts_same rfl
      rcases hend with ⟨-, -, rfl⟩ | ⟨-, code', db₁, happly, -, rfl⟩
      · exact inserts_same rfl
      · cases WebhookWorker.apply_applied happly with
        | requested hexp hpr hwid hrid hgen hnumber hlive hidle hnone hjobs =>
            exact inserts_put rfl fun _ => hidle
        | _ => exact inserts_same rfl
  | _ => exact absurd (by simp [touches]) hquiet

/-! ## Pull requests -/

/-- Pull requests are stored by completions that hold the lease, for the
connection and at the generation of the run, and only while it is live there. -/
theorem step_pullRequests (a : Action) (w : World) (pid : UUID) :
    (step a w).2.db.pullRequests.get pid = w.db.pullRequests.get pid ∨
      ∃ c ids o expired run row, a = .syncComplete c ids o expired ∧
        w.db.syncRuns.get c.aggregateId = some run ∧
        Live w.db run.repositoryConnectionId run.connectionGeneration ∧
        (step a w).2.db.pullRequests.get pid = some row ∧
        row.repositoryConnectionId = run.repositoryConnectionId ∧
        row.syncedConnectionGeneration = run.connectionGeneration := by
  by_cases hquiet : Area.pullRequests ∉ touches a
  · rw [(step_frame a w).pullRequests hquiet]
    exact .inl rfl
  cases a with
  | syncComplete c ids o expired =>
      simp only [step, World.commit]
      split
      · rename_i db' h
        rcases complete_cases h with
          rfl | ⟨run, code, retry, job, job', run', pulls, connections, hget, hverdict, -, -,
            hstored, rfl⟩
        · exact .inl rfl
        · cases hstored with
          | page hpulls hrow =>
              rcases Sync.upsertAll_changed hpulls pid with hsame | ⟨-, row, hget', hrid, hgen⟩
              · exact .inl hsame
              · exact .inr ⟨c, ids, o, expired, run, row, rfl, hget, (verdict_none hverdict).2,
                  hget', hrid, hgen⟩
          | refused code => exact .inl rfl
      · exact .inl rfl
  | _ => exact absurd (by simp [touches]) hquiet

end Prism.SyncWorker
