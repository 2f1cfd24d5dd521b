import Prism.Verification.Connection.Equations
import Prism.Verification.Jobs.Equations
import Prism.Model.PullRequest

/-! What each synchronization transaction does when it commits. -/

namespace Prism

namespace Sync

/-! ## Admission -/

theorem insertRun_eq_ok {db db' : Db} {sid jid : UUID} {run : PullRequestSyncRun} :
    insertRun db sid jid run = .ok db' ↔
      db.syncRuns.get sid = none ∧ ∃ jobs,
        Jobs.enqueue db.jobs db.now jid .syncPullRequests sid (some run.workspaceId) = .ok jobs ∧
        db' = { db with syncRuns := db.syncRuns.put sid run, jobs := jobs } := by
  simp only [insertRun, Tx.bind_eq_ok, insertRow_eq_ok]
  constructor
  · rintro ⟨_, ⟨hnone, rfl⟩, jobs, hjobs, h⟩
    exact ⟨hnone, jobs, hjobs, (Except.ok.inj h).symm⟩
  · rintro ⟨hnone, jobs, hjobs, rfl⟩
    exact ⟨_, ⟨hnone, rfl⟩, jobs, hjobs, rfl⟩

theorem active_eq_some {db : Db} {rid sid : UUID} {run : PullRequestSyncRun}
    (h : active db rid = some (sid, run)) :
    db.syncRuns.get sid = some run ∧ run.repositoryConnectionId = rid ∧ isActive run = true := by
  obtain ⟨hget, hp⟩ := Table.find_spec h
  simp only [Bool.and_eq_true, decide_eq_true_eq] at hp
  exact ⟨hget, hp⟩

theorem active_eq_none {db : Db} {rid : UUID} :
    active db rid = none ↔ ∀ sid run, db.syncRuns.get sid = some run →
      run.repositoryConnectionId = rid → isActive run = false := by
  simp [active, Table.find_eq_none_iff]

/-- A request joins the active run, or inserts one for a live connection. -/
theorem enqueue_cases {db db' : Db} {uid wid rid : UUID} {page : ℕ} {number : Option ℕ}
    {sid jid id : UUID} (h : enqueue db uid wid rid page number sid jid = .ok (id, db')) :
    db' = db ∨ active db rid = none ∧ ∃ repo cursor cached,
      requireRepository db uid wid rid .sync true = .ok repo ∧
      insertRun db sid jid (pendingRun db.now wid rid repo.connectionGeneration (some uid)
        (modeOf page number) cursor number cached) = .ok db' := by
  simp only [enqueue, Tx.bind_eq_ok] at h
  obtain ⟨repo, hrepo, h⟩ := h
  generalize (if modeOf page number = .page then some page else none) = cursor at h
  split at h
  · split at h
    · contradiction
    · exact .inl (Prod.mk.inj (Except.ok.inj h)).2.symm
  · rename_i hidle
    obtain ⟨db₁, hdb₁, h⟩ := (Tx.bind_eq_ok ..).mp h
    obtain ⟨-, rfl⟩ := Prod.mk.inj (Except.ok.inj h)
    exact .inr ⟨hidle, repo, _, _, hrepo, hdb₁⟩

/-- An event inserts a run for a live connection unless a run is active. -/
theorem requestEventSync_cases {db db' : Db} {wid rid : UUID} {generation number : ℕ}
    {sid jid : UUID} {made : Option UUID}
    (h : requestEventSync db wid rid generation number sid jid = .ok (made, db')) :
    Live db rid generation ∧
      ((active db rid ≠ none ∧ made = none ∧ db' = db) ∨
        active db rid = none ∧ made = some sid ∧ insertRun db sid jid
          (pendingRun db.now wid rid generation none .single none (some number) none) = .ok db') := by
  simp only [requestEventSync, Tx.bind_eq_ok] at h
  obtain ⟨repo, hrepo, h⟩ := h
  refine ⟨requireEvent_live hrepo, ?_⟩
  split at h
  · rename_i hbusy
    obtain ⟨rfl, rfl⟩ := Prod.mk.inj (Except.ok.inj h)
    exact .inl ⟨by simp [hbusy], rfl, rfl⟩
  · rename_i hidle
    obtain ⟨db₁, hdb₁, h⟩ := (Tx.bind_eq_ok ..).mp h
    obtain ⟨rfl, rfl⟩ := Prod.mk.inj (Except.ok.inj h)
    exact .inr ⟨hidle, rfl, hdb₁⟩

/-! ## Rows -/

/-- An accepted element leaves the table or stores its values under one key. -/
theorem upsert_cases {pulls pulls' : Table UUID PullRequest} {now : Instant} {wid rid : UUID}
    {generation : ℕ} {pr : RemotePR} {pid : UUID}
    (h : upsert pulls now wid rid generation pr pid = .ok pulls') :
    pulls' = pulls ∨ ∃ id, pulls' = pulls.put id (rowOf now wid rid generation pr) ∧
      ∀ row, pulls.get id = some row → row.repositoryConnectionId = rid := by
  unfold upsert at h
  split at h
  · rename_i id row hfind
    obtain ⟨hget, hp⟩ := Table.find_spec hfind
    simp only [Bool.and_eq_true, decide_eq_true_eq] at hp
    split at h
    · exact .inl (Except.ok.inj h).symm
    · split at h
      · contradiction
      · split at h
        · contradiction
        · refine .inr ⟨id, (Except.ok.inj h).symm, fun row' hrow' => ?_⟩
          obtain rfl := Option.some.inj (hget.symm.trans hrow')
          exact hp.1
  · split at h
    · contradiction
    · obtain ⟨hnone, rfl⟩ := (insertRow_eq_ok ..).mp h
      exact .inr ⟨pid, rfl, fun row hrow => by simp [hnone] at hrow⟩

/-- Every row that differs after storing a page belongs to the connection of the
page, before and after, and carries the generation of its run. -/
theorem upsertAll_changed {now : Instant} {wid rid : UUID} {generation : ℕ} {ids : ℕ → UUID}
    {prs : List RemotePR} {pulls pulls' : Table UUID PullRequest}
    (h : upsertAll now wid rid generation ids prs pulls = .ok pulls') (id : UUID) :
    pulls'.get id = pulls.get id ∨
      (∀ row, pulls.get id = some row → row.repositoryConnectionId = rid) ∧
      ∃ row, pulls'.get id = some row ∧ row.repositoryConnectionId = rid ∧
        row.syncedConnectionGeneration = generation := by
  induction prs generalizing pulls ids with
  | nil => exact .inl (congrArg (·.get id) (Except.ok.inj h)).symm
  | cons pr prs ih =>
      obtain ⟨mid, hmid, hrest⟩ := (Tx.bind_eq_ok ..).mp h
      rcases ih hrest with hsame | ⟨hbefore, hafter⟩
      · rcases upsert_cases hmid with rfl | ⟨pid, rfl, hown⟩
        · exact .inl hsame
        · by_cases hid : id = pid
          · subst id
            refine .inr ⟨hown, _, hsame.trans (Table.get_put_self ..), rfl, rfl⟩
          · exact .inl (hsame.trans (Table.get_put_of_ne _ _ hid))
      · refine .inr ⟨?_, hafter⟩
        rcases upsert_cases hmid with rfl | ⟨pid, rfl, hown⟩
        · exact hbefore
        · by_cases hid : id = pid
          · subst id
            exact hown
          · rwa [Table.get_put_of_ne _ _ hid] at hbefore

end Sync

/-! ## The worker -/

namespace SyncWorker

/-- Access to a run at its own generation holds its connection there. -/
theorem access_live {db : Db} {run : PullRequestSyncRun} {repo : RepositorySnapshot}
    (h : access db run = .ok repo) :
    Live db run.repositoryConnectionId repo.connectionGeneration := by
  unfold access at h
  split at h
  · obtain ⟨r, hget, -, hactive, -, rfl⟩ := requireEvent_eq_ok h
    exact ⟨r, hget, hactive, rfl⟩
  · obtain ⟨uid, -, h⟩ := (Tx.bind_eq_ok ..).mp h
    exact (requireRepository_live h).2.2

theorem begin_cases {db db' : Db} {c : Claim} {plan : Option FetchPlan}
    (h : begin db c = .ok (plan, db')) :
    (plan = none ∧ db' = db) ∨ ∃ run repo job,
      db.syncRuns.get c.aggregateId = some run ∧ access db run = .ok repo ∧
      repo.connectionGeneration = run.connectionGeneration ∧
      Jobs.fence db.jobs db.now c false = some job ∧
      plan = some ⟨repo, run.requestCursor.getD 1, run.requestedPrNumber, run.etag⟩ ∧
      db' = { db with syncRuns := db.syncRuns.put c.aggregateId (started db.now run) } := by
  unfold begin at h
  split at h
  · obtain ⟨rfl, rfl⟩ := Prod.mk.inj (Except.ok.inj h)
    exact .inl ⟨rfl, rfl⟩
  · rename_i run hrun
    obtain ⟨repo, hrepo, h⟩ := (Tx.bind_eq_ok ..).mp h
    split at h
    · obtain ⟨rfl, rfl⟩ := Prod.mk.inj (Except.ok.inj h)
      exact .inl ⟨rfl, rfl⟩
    · rename_i job hjob
      split at h
      · contradiction
      · rename_i hgen
        obtain ⟨rfl, rfl⟩ := Prod.mk.inj (Except.ok.inj h)
        exact .inr ⟨run, repo, job, hrun, hrepo, not_not.mp hgen, hjob, rfl, rfl⟩

/-- Completing without a code needs the connection at the generation of the run. -/
theorem verdict_none {db : Db} {run : PullRequestSyncRun} {code : Option Code}
    {retry retry' : Bool} (h : verdict db run code retry = .ok (none, retry')) :
    code = none ∧ Live db run.repositoryConnectionId run.connectionGeneration := by
  unfold verdict at h
  split at h
  · rename_i repo hrepo
    split at h
    · simp at h
    · rename_i hgen
      obtain ⟨rfl, -⟩ := Prod.mk.inj (Except.ok.inj h)
      exact ⟨rfl, not_not.mp hgen ▸ access_live hrepo⟩
  · split at h
    · simp at h
    · contradiction

theorem syncSuccess_eq_ok {db : Db} {run : PullRequestSyncRun}
    {connections : Table UUID RepositoryConnection} (h : syncSuccess db run = .ok connections) :
    ∃ row, db.connections.get run.repositoryConnectionId = some row ∧
      connections = db.connections.put run.repositoryConnectionId (synced db.now row) := by
  unfold syncSuccess at h
  split at h
  · simp only [Tx.bind_eq_ok, assertSome_eq_ok] at h
    obtain ⟨-, -, row, hrow, h⟩ := h
    exact ⟨row, (connectionIn_eq_some.mp hrow).1, (Except.ok.inj h).symm⟩
  · simp only [Tx.bind_eq_ok] at h
    obtain ⟨uid, -, row, hrow, h⟩ := h
    exact ⟨row, (access_eq_ok hrow).2.1, (Except.ok.inj h).symm⟩

/-- What `complete` writes besides the job and the run: a page with the success
time of its connection, or nothing but a suspension. -/
inductive Stored (db : Db) (run : PullRequestSyncRun) (ids : ℕ → UUID) (o : SyncOutcome) :
    Option Code → PullRequestSyncRun → Table UUID PullRequest →
    Table UUID RepositoryConnection → Prop where
  | page {pulls row} :
      Sync.upsertAll db.now run.workspaceId run.repositoryConnectionId run.connectionGeneration ids
        o.rows db.pullRequests = .ok pulls →
      db.connections.get run.repositoryConnectionId = some row →
      Stored db run ids o none (fetched db.now run o) pulls
        (db.connections.put run.repositoryConnectionId (synced db.now row))
  | refused (code : Code) :
      Stored db run ids o (some code) run db.pullRequests
        (if code = .githubAccessUnavailable then
          suspendLocked db.connections [run.repositoryConnectionId] else db.connections)

theorem complete_cases {db db' : Db} {c : Claim} {ids : ℕ → UUID} {o : SyncOutcome}
    {expired : Bool} (h : complete db c ids o expired = .ok db') :
    db' = db ∨ ∃ run code retry job job' run' pulls connections,
      db.syncRuns.get c.aggregateId = some run ∧
      verdict db run o.code o.retry = .ok (code, retry) ∧
      Jobs.fence db.jobs db.now c expired = some job ∧
      Jobs.finish db.now job code retry o.delay = .ok job' ∧
      Stored db run ids o code run' pulls connections ∧
      db' = { db with
        pullRequests := pulls
        connections := connections
        jobs := db.jobs.put c.id job'
        syncRuns := db.syncRuns.put c.aggregateId (closed db.now run' job' code) } := by
  unfold complete at h
  split at h
  · exact .inl (Except.ok.inj h).symm
  · rename_i run hrun
    obtain ⟨⟨code, retry⟩, hverdict, h⟩ := (Tx.bind_eq_ok ..).mp h
    simp only at h
    split at h
    · exact .inl (Except.ok.inj h).symm
    · rename_i job hjob
      cases code with
      | none =>
          simp only [if_true, storePage, Tx.bind_eq_ok] at h
          obtain ⟨⟨run', db₁⟩, ⟨pulls, hpulls, connections, hconn, hstore⟩, job', hfinish, h⟩ := h
          obtain ⟨rfl, rfl⟩ := Prod.mk.inj (Except.ok.inj hstore)
          obtain ⟨row, hrow, rfl⟩ := syncSuccess_eq_ok hconn
          exact .inr ⟨run, none, retry, job, job', _, pulls, _, hrun, hverdict, hjob, hfinish,
            .page hpulls hrow, (Except.ok.inj h).symm⟩
      | some code =>
          simp only [reduceCtorEq, if_false, Tx.bind_eq_ok, Except.ok.injEq,
            Option.some.injEq] at h
          obtain ⟨_, rfl, job', hfinish, h⟩ := h
          exact .inr ⟨run, some code, retry, job, job', run, db.pullRequests, _, hrun, hverdict,
            hjob, hfinish, .refused code, h.symm⟩

end SyncWorker

end Prism
